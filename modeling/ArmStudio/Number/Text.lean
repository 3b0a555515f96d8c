import ArmStudio.Number.Shortest
import ArmStudio.Number.Single

/-!
# Number texts

* `Double.text`: the fewest digits that read back, positional from `0.0001` up to below `10^16`;
* `Double.fixed`: a fixed number of places, rounded exactly, a tie to the even digit;
* `Int.text?`: decimal digits of an integer, refused beyond `digitLimit`;
* `hexText`: hexadecimal digits.
-/

namespace ArmStudio.Number

/-- Integers of more decimal digits than this are neither written nor read. -/
def digitLimit : Nat := 4300

inductive TextError where
  | tooManyDigits
  deriving DecidableEq

/-- An integer's decimal digits are within the limit. The logarithm decides the clear cases. -/
def withinDigitLimit (n : Nat) : Bool :=
  if Nat.log2 n < 3 * digitLimit then true
  else if 4 * digitLimit < Nat.log2 n then false
  else n < Nat.pow 10 digitLimit

def intText? (n : Int) : Except TextError String :=
  if withinDigitLimit n.natAbs then .ok (toString n) else .error .tooManyDigits

def padZeros (width : Nat) (s : String) : String :=
  String.ofList (List.replicate (width - s.length) '0') ++ s

def hexText (n : Nat) : String := String.ofList (Nat.toDigits 16 n)

def hexWide (width n : Nat) : String := padZeros width (hexText n)

namespace Double

/-- The exponent mark: a sign and at least two digits. -/
def exponentText (e : Int) : String :=
  (if e < 0 then "e-" else "e+") ++ padZeros 2 (toString e.natAbs)

/-- Shortest digits laid out: positional for points from -3 to 16, else with an exponent. -/
def layOut (d : Shortest.Decimal) : String :=
  let digits := toString d.digits
  if -4 < d.point && d.point ≤ 16 then
    if d.point ≤ 0 then
      "0." ++ String.ofList (List.replicate (-d.point).toNat '0') ++ digits
    else
      let k := d.point.toNat
      if d.length ≤ k then digits ++ String.ofList (List.replicate (k - d.length) '0') ++ ".0"
      else String.ofList (digits.toList.take k) ++ "." ++ String.ofList (digits.toList.drop k)
  else
    match digits.toList with
    | [] => ""
    | c :: [] => c.toString ++ exponentText (d.point - 1)
    | c :: rest => c.toString ++ "." ++ String.ofList rest ++ exponentText (d.point - 1)

def text (x : Double) : String :=
  match x.datum with
  | .notANumber _ => "nan"
  | .infinite negative => if negative then "-inf" else "inf"
  | .finite negative man exp =>
    (if negative then "-" else "") ++ if man = 0 then "0.0" else layOut (Shortest.ofScaled man exp)

/-- A quotient with a fixed number of places, a tie to the even digit. -/
def fixedRatio (num den places : Nat) : String :=
  let scaled := Format.nearestEven (num * Nat.pow 10 places) den
  let whole := toString (scaled / Nat.pow 10 places)
  if places = 0 then whole
  else whole ++ "." ++ padZeros places (toString (scaled % Nat.pow 10 places))

def fixed (places : Nat) (x : Double) : String :=
  match x.datum with
  | .notANumber _ => "nan"
  | .infinite negative => if negative then "-inf" else "inf"
  | .finite negative man exp =>
    let (num, den) := Format.scale man 1 (-exp)
    (if negative then "-" else "") ++ fixedRatio num den places

/-- A fixed number of places, without the sign of a zero result. -/
def fixedUnsignedZero (places : Nat) (x : Double) : String :=
  let s := x.fixed places
  if s.toList.all (fun c => c == '-' || c == '0' || c == '.') then
    String.ofList (s.toList.filter (· != '-'))
  else s

end Double

end ArmStudio.Number
