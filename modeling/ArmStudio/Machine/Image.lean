import ArmStudio.Digest

/-!
# Loaded byte files

`Image.load` checks a byte file in this order: the digest, the room for constants, the number of
constants against the size of the file, and the room for globals. Numbers are stored with the
least significant byte first; what lies beyond the end of the file reads as zero.
-/

namespace ArmStudio.Machine

structure Image where
  bytes : Array UInt8
  constantCount : Nat
  globalCount : Nat
  codeStart : Nat
  codeSize : UInt16

inductive LoadError where
  | damaged
  | badConstantCount
  | constantsTooLarge
  | globalsTooLarge
  deriving DecidableEq

namespace LoadError

def code : LoadError → Nat
  | damaged => 1
  | badConstantCount => 2
  | constantsTooLarge => 3
  | globalsTooLarge => 4

end LoadError

namespace Image

def byteOf (bytes : Array UInt8) (i : Nat) : UInt8 := (bytes[i]?).getD 0

def numberOf (bytes : Array UInt8) : Nat → Nat → Nat
  | 0, _ => 0
  | count + 1, i => (byteOf bytes i).toNat + 256 * numberOf bytes count (i + 1)

def stretch (bytes : Array UInt8) (start count : Nat) : List UInt8 :=
  (List.range count).map fun i => byteOf bytes (start + i)

def digestSize : Nat := 16

def constantLimit : Nat := 1024
def globalLimit : Nat := 4096

/-- The digest belongs to the bytes before it. A file that does not reach its digest is damaged. -/
def isIntact (bytes : Array UInt8) (size : Nat) : Bool :=
  digestSize ≤ size && size < bytes.size + digestSize &&
    stretch bytes (size - digestSize) digestSize ==
      (Digest.Context.start.update (stretch bytes 0 (size - digestSize))).finish

def load (file : List UInt8) : Except LoadError Image :=
  let bytes := file.toArray
  let size := numberOf bytes 4 0
  let constantCount := numberOf bytes 2 4
  let codeStart := 6 + 4 * constantCount + 2
  let globalCount := numberOf bytes 2 (6 + 4 * constantCount)
  if !isIntact bytes size then .error .damaged
  else if constantLimit < constantCount then .error .constantsTooLarge
  else if size < constantCount + 6 then .error .badConstantCount
  else if globalLimit < globalCount then .error .globalsTooLarge
  else .ok ⟨bytes, constantCount, globalCount, codeStart,
    ((size - codeStart - digestSize : Int) % 65536).toNat.toUInt16⟩

def codeNumber (image : Image) (count i : Nat) : Nat :=
  numberOf image.bytes count (image.codeStart + i)

def constant (image : Image) (i : Nat) : UInt32 := (numberOf image.bytes 4 (6 + 4 * i)).toUInt32

end Image

end ArmStudio.Machine
