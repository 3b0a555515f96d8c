/-!
# UTF-8

Decoding of bytes into characters. A fault is located by the bytes it covers: those of the
character under way up to the one that does not fit, or all that are left if the text ends early.
-/

namespace ArmStudio.Text.Utf8

inductive Fault where
  | badStart
  | badContinuation
  | endOfData
  deriving DecidableEq

namespace Fault

def text : Fault → String
  | badStart => "invalid start byte"
  | badContinuation => "invalid continuation byte"
  | endOfData => "unexpected end of data"

end Fault

/-- A fault, its first byte, and the number of bytes before it and in it. -/
structure DecodeError where
  byte : UInt8
  position : Nat
  length : Nat
  fault : Fault
  deriving DecidableEq

namespace DecodeError

def hexDigit (n : Nat) : Char := (Nat.digitChar n)

def message (e : DecodeError) : String :=
  if e.length = 1 then
    let b := e.byte.toNat
    "'utf-8' codec can't decode byte 0x" ++ String.ofList [hexDigit (b / 16), hexDigit (b % 16)] ++
      s!" in position {e.position}: {e.fault.text}"
  else
    s!"'utf-8' codec can't decode bytes in position {e.position}-{e.position + e.length - 1}: " ++
      e.fault.text

end DecodeError

/-- The shape of a character by its first byte: the bits that it gives, the number of bytes that
follow and the range of the first of those. -/
structure Lead where
  bits : Nat
  follow : Nat
  low : Nat
  high : Nat

def lead? (b : Nat) : Option Lead :=
  if b < 0x80 then some ⟨b, 0, 0, 0⟩
  else if b < 0xc2 then none
  else if b < 0xe0 then some ⟨b - 0xc0, 1, 0x80, 0xbf⟩
  else if b < 0xf0 then
    some ⟨b - 0xe0, 2, if b = 0xe0 then 0xa0 else 0x80, if b = 0xed then 0x9f else 0xbf⟩
  else if b < 0xf5 then
    some ⟨b - 0xf0, 3, if b = 0xf0 then 0x90 else 0x80, if b = 0xf4 then 0x8f else 0xbf⟩
  else none

/-- Takes the bytes that follow a first byte. `taken` counts those so far, the first included; a
fault is given with their number. -/
def follow : Nat → Nat → Nat → Nat → Nat → List UInt8 → Except (Fault × Nat) (Nat × List UInt8)
  | 0, _, _, _, bits, rest => .ok (bits, rest)
  | _ + 1, taken, _, _, _, [] => .error (.endOfData, taken)
  | n + 1, taken, low, high, bits, b :: rest =>
    if low ≤ b.toNat ∧ b.toNat ≤ high then
      follow n (taken + 1) 0x80 0xbf (bits * 64 + b.toNat % 64) rest
    else .error (.badContinuation, taken)

def decodeFrom : Nat → Nat → List UInt8 → Except DecodeError (List Char)
  | _, _, [] => .ok []
  | 0, _, _ :: _ => .ok []
  | fuel + 1, position, b :: rest =>
    match lead? b.toNat with
    | none => .error ⟨b, position, 1, .badStart⟩
    | some l =>
      match follow l.follow 1 l.low l.high l.bits rest with
      | .error (fault, length) => .error ⟨b, position, length, fault⟩
      | .ok (code, rest) => do
        return Char.ofNat code :: (← decodeFrom fuel (position + l.follow + 1) rest)

/-- The characters of a text. Every step takes a byte at least, so the length is fuel enough. -/
def decode (bytes : List UInt8) : Except DecodeError (List Char) := decodeFrom bytes.length 0 bytes

/-- Line ends of two kinds become line feeds. -/
def unifyLines : List Char → List Char
  | '\r' :: '\n' :: rest => '\n' :: unifyLines rest
  | '\r' :: rest => '\n' :: unifyLines rest
  | c :: rest => c :: unifyLines rest
  | [] => []

end ArmStudio.Text.Utf8
