/-!
# MD5

The digest of a message: the message, the byte `80`, zeros up to 56 modulo 64 and the bit length
are cut into blocks of 64 bytes, and each block is folded into a state of four words.
-/

namespace ArmStudio.Digest

structure State where
  a : UInt32
  b : UInt32
  c : UInt32
  d : UInt32
  deriving DecidableEq

def initial : State := ⟨0x67452301, 0xefcdab89, 0x98badcfe, 0x10325476⟩

def sines : List UInt32 := [
  0xd76aa478, 0xe8c7b756, 0x242070db, 0xc1bdceee, 0xf57c0faf, 0x4787c62a, 0xa8304613, 0xfd469501,
  0x698098d8, 0x8b44f7af, 0xffff5bb1, 0x895cd7be, 0x6b901122, 0xfd987193, 0xa679438e, 0x49b40821,
  0xf61e2562, 0xc040b340, 0x265e5a51, 0xe9b6c7aa, 0xd62f105d, 0x02441453, 0xd8a1e681, 0xe7d3fbc8,
  0x21e1cde6, 0xc33707d6, 0xf4d50d87, 0x455a14ed, 0xa9e3e905, 0xfcefa3f8, 0x676f02d9, 0x8d2a4c8a,
  0xfffa3942, 0x8771f681, 0x6d9d6122, 0xfde5380c, 0xa4beea44, 0x4bdecfa9, 0xf6bb4b60, 0xbebfbc70,
  0x289b7ec6, 0xeaa127fa, 0xd4ef3085, 0x04881d05, 0xd9d4d039, 0xe6db99e5, 0x1fa27cf8, 0xc4ac5665,
  0xf4292244, 0x432aff97, 0xab9423a7, 0xfc93a039, 0x655b59c3, 0x8f0ccc92, 0xffeff47d, 0x85845dd1,
  0x6fa87e4f, 0xfe2ce6e0, 0xa3014314, 0x4e0811a1, 0xf7537e82, 0xbd3af235, 0x2ad7d2bb, 0xeb86d391]

def rotation (i : Nat) : UInt32 :=
  match i / 16, i % 4 with
  | 0, 0 => 7
  | 0, 1 => 12
  | 0, 2 => 17
  | 0, _ => 22
  | 1, 0 => 5
  | 1, 1 => 9
  | 1, 2 => 14
  | 1, _ => 20
  | 2, 0 => 4
  | 2, 1 => 11
  | 2, 2 => 16
  | 2, _ => 23
  | _, 0 => 6
  | _, 1 => 10
  | _, 2 => 15
  | _, _ => 21

def rotateLeft (x n : UInt32) : UInt32 := (x <<< n) ||| (x >>> (32 - n))

def mix (i : Nat) (s : State) : UInt32 :=
  if i < 16 then (s.b &&& s.c) ||| (~~~s.b &&& s.d)
  else if i < 32 then (s.d &&& s.b) ||| (~~~s.d &&& s.c)
  else if i < 48 then s.b ^^^ s.c ^^^ s.d
  else s.c ^^^ (s.b ||| ~~~s.d)

def wordIndex (i : Nat) : Nat :=
  if i < 16 then i
  else if i < 32 then (5 * i + 1) % 16
  else if i < 48 then (3 * i + 5) % 16
  else 7 * i % 16

def step (words : Array UInt32) (s : State) (i : Nat) (k : UInt32) : State :=
  let sum := s.a + mix i s + k + words.getD (wordIndex i) 0
  ⟨s.d, s.b + rotateLeft sum (rotation i), s.b, s.c⟩

def steps (words : Array UInt32) : Nat → State → List UInt32 → State
  | _, s, [] => s
  | i, s, k :: rest => steps words (i + 1) (step words s i k) rest

def wordsOf : List UInt8 → List UInt32
  | a :: b :: c :: d :: rest =>
    (a.toUInt32 ||| b.toUInt32 <<< 8 ||| c.toUInt32 <<< 16 ||| d.toUInt32 <<< 24) :: wordsOf rest
  | _ => []

def compress (s : State) (block : List UInt8) : State :=
  let r := steps (wordsOf block).toArray 0 s sines
  ⟨s.a + r.a, s.b + r.b, s.c + r.c, s.d + r.d⟩

def compressAll : Nat → State → List UInt8 → State
  | 0, s, _ => s
  | count + 1, s, bytes => compressAll count (compress s (bytes.take 64)) (bytes.drop 64)

/-- The low `count` bytes of a natural, least significant first. -/
def leBytes : Nat → Nat → List UInt8
  | 0, _ => []
  | count + 1, n => (n % 256).toUInt8 :: leBytes count (n / 256)

def padded (m : List UInt8) : List UInt8 :=
  m ++ 0x80 :: List.replicate ((119 - m.length % 64) % 64) 0 ++ leBytes 8 (m.length * 8)

def State.bytes (s : State) : List UInt8 :=
  leBytes 4 s.a.toNat ++ leBytes 4 s.b.toNat ++ leBytes 4 s.c.toNat ++ leBytes 4 s.d.toNat

def md5 (m : List UInt8) : List UInt8 :=
  let p := padded m
  (compressAll (p.length / 64) initial p).bytes

/-! ## Digests of messages that come in chunks -/

/-- The 64 bytes in which an unfinished block is collected. -/
structure Buffer where
  bytes : List UInt8
  length_bytes : bytes.length = 64

def Buffer.zero : Buffer := ⟨List.replicate 64 0, by simp⟩

/-- Overwrites bytes from an index on. What does not fit is dropped. -/
def Buffer.write (buffer : Buffer) (index : Nat) (bytes : List UInt8) : Buffer :=
  ⟨(buffer.bytes.take index ++ bytes ++ buffer.bytes.drop (index + bytes.length)).take 64, by
    simp only [List.length_take, List.length_append, List.length_drop, buffer.length_bytes]
    omega⟩

structure Context where
  state : State
  bits : UInt64
  buffer : Buffer

def Context.start : Context := ⟨initial, 0, .zero⟩

variable (c : Context)

def Context.index : Nat := (c.bits / 8 % 64).toNat

/-- Takes in a chunk. If it finishes the block, that block and the whole blocks behind it are
folded and the rest starts a new one; the old bytes of the buffer stay behind the rest. -/
def Context.update (chunk : List UInt8) : Context :=
  let bits := c.bits + chunk.length.toUInt64 * 8
  let room := 64 - c.index
  if room ≤ chunk.length then
    let filled := c.buffer.write c.index (chunk.take room)
    let rest := chunk.drop room
    let blocks := rest.length / 64
    let state := compressAll blocks (compress c.state filled.bytes) rest
    ⟨state, bits, filled.write 0 (rest.drop (64 * blocks))⟩
  else
    ⟨c.state, bits, c.buffer.write c.index chunk⟩

/-- The digest: padding and bit length are taken in as chunks of their own. -/
def Context.finish : List UInt8 :=
  let padLength := if c.index < 56 then 56 - c.index else 120 - c.index
  let c' := c.update ((0x80 :: List.replicate 63 0).take padLength)
  (c'.update (leBytes 8 c.bits.toNat)).state.bytes

end ArmStudio.Digest
