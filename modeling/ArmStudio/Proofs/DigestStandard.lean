import ArmStudio.Proofs.Chunks
import ArmStudio.Proofs.SineTable
import Mathlib.Data.Nat.Digits.Defs

/-!
# The digest of RFC 1321

`Standard.digest` states the digest the way RFC 1321 does: a message is padded, its words are read
block by block, and each block goes through four rounds of sixteen operations on four registers
that stand still, with a table of constants taken from the sine. `md5` turns the registers instead
and computes the order of the words.
-/

namespace ArmStudio.Digest

namespace Standard

abbrev Registers := Fin 4 → UInt32

def initial : Registers := ![0x67452301, 0xefcdab89, 0x98badcfe, 0x10325476]

def auxiliary : Fin 4 → UInt32 → UInt32 → UInt32 → UInt32
  | 0, x, y, z => (x &&& y) ||| (~~~x &&& z)
  | 1, x, y, z => (x &&& z) ||| (y &&& ~~~z)
  | 2, x, y, z => x ^^^ y ^^^ z
  | 3, x, y, z => y ^^^ (x ||| ~~~z)

/-- The integer part of `4294967296 * |sin i|`, where `i` is in radians. -/
noncomputable def sineWord (i : Nat) : UInt32 := UInt32.ofNat ⌊4294967296 * |Real.sin i|⌋₊

def rotate (x : UInt32) (s : Nat) : UInt32 := UInt32.ofBitVec (x.toBitVec.rotateLeft s)

/-- The order in which the operations of a round take in the words of the block. -/
def wordOrder : Fin 4 → Fin 16 → Fin 16 := ![
  ![0, 1, 2, 3, 4, 5, 6, 7, 8, 9, 10, 11, 12, 13, 14, 15],
  ![1, 6, 11, 0, 5, 10, 15, 4, 9, 14, 3, 8, 13, 2, 7, 12],
  ![5, 8, 11, 14, 1, 4, 7, 10, 13, 0, 3, 6, 9, 12, 15, 2],
  ![0, 7, 14, 5, 12, 3, 10, 1, 8, 15, 6, 13, 4, 11, 2, 9]]

def shifts : Fin 4 → Fin 4 → Nat := ![![7, 12, 17, 22], ![5, 9, 14, 20], ![4, 11, 16, 23],
  ![6, 10, 15, 21]]

/-- An operation `[abcd k s i]` of a round. The register `a` is written; `b`, `c` and `d` are the
registers behind it in cyclic order. -/
structure Operation where
  round : Fin 4
  a : Fin 4
  k : Fin 16
  s : Nat
  i : Nat
  deriving DecidableEq

/-- `a = b + ((a + f(b, c, d) + X[k] + T[i]) <<< s)`. -/
noncomputable def Operation.run (x : Fin 16 → UInt32) (r : Registers) (o : Operation) : Registers :=
  Function.update r o.a (r (o.a + 1) + rotate (r o.a +
    auxiliary o.round (r (o.a + 1)) (r (o.a + 2)) (r (o.a + 3)) + x o.k + sineWord o.i) o.s)

/-- The operations of a round: `[ABCD …]`, `[DABC …]`, `[CDAB …]`, `[BCDA …]` and so on. -/
def roundOperations (round : Fin 4) : List Operation := List.ofFn fun j : Fin 16 =>
    ⟨round, -Fin.ofNat 4 j, wordOrder round j, shifts round (Fin.ofNat 4 j), 16 * round + j + 1⟩

def operations : List Operation := (List.finRange 4).flatMap roundOperations

/-- A block of sixteen words goes through the four rounds; the registers it found are added. -/
noncomputable def transform (r : Registers) (x : Fin 16 → UInt32) : Registers :=
  fun n => operations.foldl (Operation.run x) r n + r n

/-- A count of bytes of a number, low-order byte first. -/
def lowFirst (count n : Nat) : List UInt8 :=
  List.ofFn fun i : Fin count => UInt8.ofNat (n / 256 ^ (i : Nat))

/-- The zeros of the padding: as few as make the length congruent to 56 modulo 64. -/
def zeros (length : Nat) : Nat :=
  Nat.find (p := fun z => (length + 1 + z) % 64 = 56) ⟨119 - length % 64, by omega⟩

variable (m : List UInt8)

/-- The message, the byte `80`, zeros and the length of the message in bits. -/
def padded : List UInt8 :=
  m ++ [0x80] ++ List.replicate (zeros m.length) 0 ++ lowFirst 8 (8 * m.length)

/-- The `n`-th word of a message, low-order byte first. -/
def word (n : Nat) : UInt32 :=
  UInt32.ofNat (Nat.ofDigits 256 (((m.drop (4 * n)).take 4).map UInt8.toNat))

/-- The registers after the first blocks of a message. -/
noncomputable def registers (blocks : Nat) : Registers :=
  (List.range blocks).foldl (fun r i => transform r fun j => word m (16 * i + j)) initial

/-- The digest: the registers after all blocks of the padded message, low-order bytes first. -/
noncomputable def digest : List UInt8 := (List.finRange 4).flatMap fun n =>
    lowFirst 4 (registers (padded m) ((padded m).length / 64) n).toNat

end Standard

open Standard Digest Context

/-! ## Padding -/

lemma leBytes_eq_lowFirst (count n : Nat) : leBytes count n = lowFirst count n := by
  induction count generalizing n with
  | zero => rfl
  | succ count ih =>
    simp only [lowFirst] at ih
    rw [leBytes, ih, lowFirst, List.ofFn_succ]
    have hhead : (n % 256).toUInt8 = UInt8.ofNat (n / 256 ^ ((0 : Fin (count + 1)) : Nat)) := by
      rw [Fin.val_zero, pow_zero, Nat.div_one]
      exact UInt8.toNat_inj.1 (by simp)
    have hstep (i : Fin count) : n / 256 / 256 ^ (i : Nat) = n / 256 ^ (i.succ : Nat) := by
      rw [Fin.val_succ, pow_succ', Nat.div_div_eq_div_mul]
    simp only [hhead, hstep]

lemma zeros_eq (n : Nat) : zeros n = (119 - n % 64) % 64 := by
  rw [zeros, Nat.find_eq_iff]
  constructor
  · omega
  · intro z hz
    omega

variable (m : List UInt8)

lemma padded_eq : padded m = Standard.padded m := by
  rw [padded, Standard.padded, zeros_eq, leBytes_eq_lowFirst, mul_comm]
  simp

/-! ## Words -/

lemma rotateLeft_eq {x n : UInt32} (hpos : 0 < n.toNat) (h : n.toNat < 32) :
    rotateLeft x n = rotate x n.toNat := by
  apply UInt32.toBitVec_inj.1
  have hsub : (32 - n).toNat = 32 - n.toNat := by
    rw [UInt32.toNat_sub_of_le]
    · rfl
    · rw [UInt32.le_iff_toNat_le]
      exact h.le
  have hmod (y : UInt32) : (y.toBitVec % 32).toNat = y.toNat % 32 := rfl
  simp only [rotateLeft, rotate, UInt32.toBitVec_or, UInt32.toBitVec_shiftLeft,
    UInt32.toBitVec_shiftRight, BitVec.rotateLeft_def, BitVec.shiftLeft_eq', BitVec.ushiftRight_eq',
    hmod, hsub]
  rw [Nat.mod_eq_of_lt h, Nat.mod_eq_of_lt (a := 32 - n.toNat) (by omega)]

lemma or_shiftLeft {a b : Nat} (k : Nat) (h : a < 2 ^ k) : a ||| b <<< k = a + b * 2^k := by
  rw [Nat.or_comm, ← Nat.shiftLeft_add_eq_or_of_lt h, Nat.shiftLeft_eq, add_comm]

lemma word_of_bytes (a b c d : UInt8) :
    a.toUInt32 ||| b.toUInt32 <<< 8 ||| c.toUInt32 <<< 16 ||| d.toUInt32 <<< 24 =
      UInt32.ofNat (Nat.ofDigits 256 [a.toNat, b.toNat, c.toNat, d.toNat]) := by
  apply UInt32.toNat_inj.1
  have ha := a.toNat_lt
  have hb := b.toNat_lt
  have hc := c.toNat_lt
  have hd := d.toNat_lt
  have hshift (x : UInt8) (k : Nat) (hk : x.toNat * 2 ^ k < 4294967296) :
      x.toNat <<< k % 4294967296 = x.toNat <<< k := by
    rw [Nat.mod_eq_of_lt (by rwa [Nat.shiftLeft_eq])]
  simp [Nat.ofDigits]
  rw [hshift b 8 (by omega), hshift c 16 (by omega), hshift d 24 (by omega), or_shiftLeft 8 ha,
    or_shiftLeft 16 (by omega), or_shiftLeft 24 (by omega)]
  omega

lemma wordsOf_getElem? (bytes : List UInt8) (n : Nat) (h : 4 * n + 4 ≤ bytes.length) :
    (wordsOf bytes)[n]? = some (word bytes n) := by
  induction bytes using wordsOf.induct generalizing n with
  | case1 a b c d rest ih =>
    cases n with
    | zero => simp [wordsOf, word, word_of_bytes]
    | succ n =>
      have := ih n (by simp only [List.length_cons] at h; omega)
      simpa [wordsOf, word, Nat.mul_add] using this
  | case2 bytes hshort =>
    exfalso
    match bytes, hshort with
    | a :: b :: c :: d :: rest, hshort => exact hshort a b c d rest rfl

/-! ## Operations -/

def stepOperation (i : Nat) : Operation :=
  ⟨Fin.ofNat 4 (i / 16), -Fin.ofNat 4 i, Fin.ofNat 16 (wordIndex i), (rotation i).toNat, i + 1⟩

lemma operations_eq : operations = (List.range 64).map stepOperation := by decide

lemma rotation_bounds : ∀ i < 64, 0 < (rotation i).toNat ∧ (rotation i).toNat < 32 := by decide

lemma wordIndex_lt (i : Nat) : wordIndex i < 16 := by
  unfold wordIndex
  split_ifs <;> omega

variable {i : Nat} {s : State} {r : Registers} {words : Array UInt32} {x : Fin 16 → UInt32}

lemma mix_eq (h : i < 64) (s : State) :
    mix i s = auxiliary (stepOperation i).round s.b s.c s.d := by
  -- only the second round is written differently: the standard has the operands the other way
  have hcases : i / 16 = 0 ∧ i < 16 ∨ i / 16 = 1 ∧ 16 ≤ i ∧ i < 32 ∨
      i / 16 = 2 ∧ 32 ≤ i ∧ i < 48 ∨ i / 16 = 3 ∧ 48 ≤ i := by omega
  rcases hcases with ⟨hround, hi⟩ | ⟨hround, hlow, hi⟩ | ⟨hround, hlow, hi⟩ | ⟨hround, hlow⟩
  · simp [mix, stepOperation, auxiliary, hround, hi]
  · have hcomm : s.d &&& s.b ||| ~~~s.d &&& s.c = s.b &&& s.d ||| s.c &&& ~~~s.d := by
      rw [UInt32.and_comm s.d, UInt32.and_comm (~~~s.d)]
    simp [mix, stepOperation, auxiliary, hround, hi, hcomm, show ¬ i < 16 by omega]
  · simp [mix, stepOperation, auxiliary, hround, hi, show ¬ i < 16 by omega,
      show ¬ i < 32 by omega]
  · simp [mix, stepOperation, auxiliary, hround, show ¬ i < 16 by omega,
      show ¬ i < 32 by omega, show ¬ i < 48 by omega]

lemma sines_eq (h : i < 64) : sines.getD i 0 = sineWord (i + 1) := by
  rw [sineWord, ← toNat_sines h, UInt32.ofNat_toNat]

/-- The state shows the registers turned by a number of steps. -/
structure Shows (s : State) (i : Nat) (r : Registers) : Prop where
  a : s.a = r (-Fin.ofNat 4 i)
  b : s.b = r (-Fin.ofNat 4 i + 1)
  c : s.c = r (-Fin.ofNat 4 i + 2)
  d : s.d = r (-Fin.ofNat 4 i + 3)

lemma Operation.run_of_ne (x : Fin 16 → UInt32) (r : Registers) {o : Operation} {n : Fin 4}
    (h : n ≠ o.a) : o.run x r n = r n :=
  Function.update_of_ne h _ _

lemma Shows.step (h : Shows s i r) (hi : i < 64) (hwords : ∀ j : Fin 16, words.getD j 0 = x j) :
    Shows (step words s i (sines.getD i 0)) (i + 1) ((stepOperation i).run x r) := by
  have hword : words.getD (wordIndex i) 0 = x (stepOperation i).k := by
    have hk : ((stepOperation i).k : Nat) = wordIndex i := Nat.mod_eq_of_lt (wordIndex_lt i)
    rw [← hwords, hk]
  have hbounds := rotation_bounds i hi
  have hsum : s.a + mix i s + sines.getD i 0 + words.getD (wordIndex i) 0 =
      s.a + auxiliary (stepOperation i).round s.b s.c s.d + x (stepOperation i).k +
        sineWord (i + 1) := by
    rw [mix_eq hi, sines_eq hi, hword, UInt32.add_assoc, UInt32.add_assoc, UInt32.add_assoc,
      UInt32.add_assoc, UInt32.add_comm (sineWord (i + 1))]
  -- the registers stand still and the view of them turns back by one
  have hsucc : Fin.ofNat 4 (i + 1) = Fin.ofNat 4 i + 1 := by
    apply Fin.ext
    simp [Fin.val_add]
  have hturn (t : Fin 4) : -(t + 1) = -t + 3 ∧ -(t + 1) + 1 = -t ∧ -(t + 1) + 2 = -t + 1 ∧
      -(t + 1) + 3 = -t + 2 := by
    revert t
    decide
  have hother (t : Fin 4) : -t + 1 ≠ -t ∧ -t + 2 ≠ -t ∧ -t + 3 ≠ -t := by
    revert t
    decide
  obtain ⟨hta, htb, htc, htd⟩ := hturn (Fin.ofNat 4 i)
  obtain ⟨hob, hoc, hod⟩ := hother (Fin.ofNat 4 i)
  -- the register that was written is seen as `b`; the others only move on
  constructor
  · rw [hsucc, hta, Operation.run_of_ne x r hod]
    exact h.d
  · rw [hsucc, htb]
    refine Eq.trans ?_ (Function.update_self (stepOperation i).a _ r).symm
    rw [Digest.step, hsum, rotateLeft_eq hbounds.1 hbounds.2, h.a, h.b, h.c, h.d]
    rfl
  · rw [hsucc, htc, Operation.run_of_ne x r hob]
    exact h.b
  · rw [hsucc, htd, Operation.run_of_ne x r hoc]
    exact h.c

lemma Shows.steps (hwords : ∀ j : Fin 16, words.getD j 0 = x j) (n : Nat) (h : Shows s i r)
    (hi : i + n = 64) :
    Shows (steps words i s (sines.drop i)) 64
      (((List.range' i n).map stepOperation).foldl (Operation.run x) r) := by
  induction n generalizing s i r with
  | zero =>
    have hend : i = 64 := by omega
    subst hend
    exact h
  | succ n ih =>
    have hcons : sines.drop i = sines.getD i 0 :: sines.drop (i + 1) := by
      have hlt : i < sines.length := by
        show i < 64
        omega
      rw [List.drop_eq_getElem_cons hlt]
      simp [hlt]
    rw [hcons, List.range'_succ, List.map_cons, List.foldl_cons]
    exact ih (h.step (by omega) hwords) (by omega)

variable (s : State)

def State.registers : Registers := ![s.a, s.b, s.c, s.d]

/-- A block is folded the way the standard does it: after 64 steps the registers stand as they stood
at the start. -/
lemma registers_compress (block : List UInt8) (h : block.length = 64) :
    (compress s block).registers = transform s.registers fun j => word block j := by
  have hwords (j : Fin 16) : (wordsOf block).toArray.getD j 0 = word block j := by
    have hj := j.isLt
    have hget := wordsOf_getElem? block j (by omega)
    simp [Array.getD_eq_getD_getElem?, hget]
  have hstart : Shows s 0 s.registers := ⟨rfl, rfl, rfl, rfl⟩
  have hend := hstart.steps hwords 64 rfl
  have hrange : List.range' 0 64 = List.range 64 := (List.range_eq_range').symm
  rw [hrange, ← operations_eq, List.drop_zero] at hend
  -- 64 is a multiple of four, so the view is back where it was
  funext n
  match n with
  | 0 => exact (UInt32.add_comm _ _).trans (congrArg (· + s.a) hend.a)
  | 1 => exact (UInt32.add_comm _ _).trans (congrArg (· + s.b) hend.b)
  | 2 => exact (UInt32.add_comm _ _).trans (congrArg (· + s.c) hend.c)
  | 3 => exact (UInt32.add_comm _ _).trans (congrArg (· + s.d) hend.d)

/-! ## Messages -/

lemma word_take_drop (i : Nat) (j : Fin 16) :
    word ((m.drop (64 * i)).take 64) j = word m (16 * i + j) := by
  have hj := j.isLt
  have hstart : 64 * i + 4 * (j : Nat) = 4 * (16 * i + j) := by omega
  rw [word, word, List.drop_take, List.drop_drop, List.take_take, hstart,
    min_eq_left (by omega)]

lemma registers_compressAll (n : Nat) (h : 64 * n ≤ m.length) :
    (compressAll n initial m).registers = Standard.registers m n := by
  induction n with
  | zero => rfl
  | succ n ih =>
    have hblock : ((m.drop (64 * n)).take 64).length = 64 := by
      rw [List.length_take, List.length_drop]
      omega
    rw [compressAll_add n 1, Standard.registers, List.range_succ, List.foldl_append,
      ← Standard.registers, ← ih (by omega)]
    simp only [compressAll, List.foldl_cons, List.foldl_nil]
    rw [registers_compress _ _ hblock]
    simp only [word_take_drop]

lemma bytes_eq : s.bytes = (List.finRange 4).flatMap fun n => lowFirst 4 (s.registers n).toNat := by
  simp only [State.bytes, leBytes_eq_lowFirst]
  simp [List.finRange_succ, State.registers]

lemma md5_eq_digest : md5 m = digest m := by
  have hblocks := Nat.mul_div_le (Standard.padded m).length 64
  rw [md5, digest, padded_eq, bytes_eq, registers_compressAll _ _ hblocks]

example : md5 [0x61, 0x62, 0x63] =
    [0x90, 0x01, 0x50, 0x98, 0x3c, 0xd2, 0x4f, 0xb0, 0xd6, 0x96, 0x3f,
    0x7d, 0x28, 0xe1, 0x7f, 0x72] := by
  decide +kernel

/-- However a message comes in chunks, at the end stands its digest of RFC 1321; in particular if it
comes as one. -/
theorem finish_foldl_update_eq_digest (chunks : List (List UInt8)) (m : List UInt8) :
    (chunks.foldl update start).finish = digest chunks.flatten ∧
      (start.update m).finish = digest m := by
  rw [finish_foldl_update, finish_update]
  exact ⟨md5_eq_digest _, md5_eq_digest m⟩

end ArmStudio.Digest
