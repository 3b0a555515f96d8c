/-!
# Blank characters

`isBlank` separates words and is cut from the ends of a text; `isMargin`, which leaves out the four
ASCII separators, may surround a number.
-/

namespace ArmStudio.Text

def isBlank (c : Char) : Bool :=
  let n := c.toNat
  (0x09 ≤ n && n ≤ 0x0d) || (0x1c ≤ n && n ≤ 0x20) || n == 0x85 || n == 0xa0 || n == 0x1680 ||
    (0x2000 ≤ n && n ≤ 0x200a) || n == 0x2028 || n == 0x2029 || n == 0x202f || n == 0x205f ||
    n == 0x3000

/-- A blank that may stand around a number. -/
def isMargin (c : Char) : Bool := isBlank c && !(0x1c ≤ c.toNat && c.toNat ≤ 0x1f)

def trimBy (p : Char → Bool) (s : List Char) : List Char :=
  ((s.dropWhile p).reverse.dropWhile p).reverse

def strip (s : List Char) : List Char := trimBy isBlank s

def addWord (word : List Char) (words : List (List Char)) : List (List Char) :=
  if word.isEmpty then words else word.reverse :: words

/-- The words of a text, from a word begun (its characters reversed). -/
def wordsFrom (begun : List Char) : List Char → List (List Char)
  | [] => addWord begun []
  | c :: rest =>
    if isBlank c then addWord begun (wordsFrom [] rest) else wordsFrom (c :: begun) rest

/-- The maximal runs of characters that are not blank. -/
def words (s : List Char) : List (List Char) := wordsFrom [] s

end ArmStudio.Text
