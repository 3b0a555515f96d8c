import ArmStudio.Digest
import Mathlib.Data.List.Basic

/-!
# Digests of messages that come in chunks

A digest under way knows the message taken in so far (`Context.Holds`): its whole blocks are folded
into the state, the rest stands at the start of the buffer, and the bit count is its length. What
stands in the buffer behind the rest is left over from earlier blocks.
-/

namespace ArmStudio.Digest

open List

lemma compressAll_append_left (n : Nat) (s : State) (xs ys : List UInt8)
    (h : 64 * n ≤ xs.length) : compressAll n s (xs ++ ys) = compressAll n s xs := by
  induction n generalizing s xs with
  | zero => rfl
  | succ n ih =>
    have hlen : 64 ≤ xs.length := by omega
    have hdrop : 64 * n ≤ (xs.drop 64).length := by
      rw [length_drop]
      omega
    simp only [compressAll]
    rw [take_append_of_le_length hlen, drop_append_of_le_length hlen, ih _ _ hdrop]

lemma compressAll_add (n k : Nat) (s : State) (xs : List UInt8) :
    compressAll (n + k) s xs = compressAll k (compressAll n s xs) (xs.drop (64 * n)) := by
  induction n generalizing s xs with
  | zero => simp [compressAll]
  | succ n ih =>
    have hsum : n + 1 + k = (n + k) + 1 := by omega
    have hmul : 64 * (n + 1) = 64 + 64 * n := by omega
    rw [hsum, hmul]
    simp only [compressAll]
    rw [ih, drop_drop]

section

variable {n : Nat} {xs : List UInt8} (h : xs.length = 64 * n) (rest : List UInt8)

include h

lemma blocks_append : (xs ++ rest).length / 64 = n + rest.length / 64 := by
  rw [length_append, h]
  omega

lemma compressAll_blocks_append (s : State) :
    compressAll ((xs ++ rest).length / 64) s (xs ++ rest) =
      compressAll (rest.length / 64) (compressAll n s xs) rest := by
  rw [blocks_append h, compressAll_add, compressAll_append_left _ _ _ _ (Nat.le_of_eq h.symm), ← h,
    drop_left]

lemma drop_blocks_append :
    (xs ++ rest).drop (64 * ((xs ++ rest).length / 64)) = rest.drop (64 * (rest.length / 64)) := by
  rw [blocks_append h, Nat.mul_add, ← h, ← drop_drop, drop_left]

end

lemma leBytes_mod (n : Nat) : leBytes 8 (n % 18446744073709551616) = leBytes 8 n := by
  have hbyte (a b : Nat) (h : a % 256 = b % 256) : (a % 256).toUInt8 = (b % 256).toUInt8 := by
    rw [h]
  simp only [leBytes, List.cons.injEq]
  refine ⟨hbyte _ _ ?_, hbyte _ _ ?_, hbyte _ _ ?_, hbyte _ _ ?_, hbyte _ _ ?_, hbyte _ _ ?_,
    hbyte _ _ ?_, hbyte _ _ ?_, trivial⟩ <;> omega

/-! ## The buffer -/

lemma Buffer.take_write (buffer : Buffer) {index n : Nat} {bytes}
    (hn : index + bytes.length = n) (hfit : n ≤ 64) :
    (buffer.write index bytes).bytes.take n = buffer.bytes.take index ++ bytes := by
  have hlen : (buffer.bytes.take index ++ bytes).length = n := by
    rw [length_append, length_take, buffer.length_bytes]
    omega
  rw [write, take_take, Nat.min_eq_left hfit, ← hlen, take_left]

namespace Context

/-- The digest under way has taken in a message. -/
structure Holds (c : Context) (m : List UInt8) : Prop where
  state : c.state = compressAll (m.length / 64) initial m
  bits : c.bits.toNat = m.length * 8 % 18446744073709551616
  buffer : c.buffer.bytes.take (m.length % 64) = m.drop (64 * (m.length / 64))

lemma holds_start : start.Holds [] := ⟨rfl, rfl, rfl⟩

variable {c : Context} {m chunk : List UInt8}

section

variable (h : c.Holds m)

include h

lemma Holds.index : c.index = m.length % 64 := by
  have height : (8 : UInt64).toNat = 8 := rfl
  have hblock : (64 : UInt64).toNat = 64 := rfl
  rw [Context.index, UInt64.toNat_mod, UInt64.toNat_div, h.bits, height, hblock]
  omega

omit h in
lemma bits_update (c : Context) (chunk : List UInt8) :
    (c.update chunk).bits = c.bits + chunk.length.toUInt64 * 8 := by
  rw [update]
  split <;> rfl

lemma Holds.bits_update (chunk : List UInt8) :
    (c.update chunk).bits.toNat = (m ++ chunk).length * 8 % 18446744073709551616 := by
  have height : (8 : UInt64).toNat = 8 := rfl
  rw [Context.bits_update, UInt64.toNat_add, UInt64.toNat_mul, h.bits, height, length_append,
    Nat.toUInt64_eq, UInt64.toNat_ofNat']
  omega

lemma Holds.update_short (hshort : m.length % 64 + chunk.length < 64) :
    (c.update chunk).Holds (m ++ chunk) := by
  have hbits := h.bits_update chunk
  have hroom : ¬ 64 - c.index ≤ chunk.length := by
    rw [h.index]
    omega
  have hle := Nat.mul_div_le m.length 64
  have hblocks : (m ++ chunk).length / 64 = m.length / 64 := by
    rw [length_append]
    omega
  have hrest : (m ++ chunk).length % 64 = m.length % 64 + chunk.length := by
    rw [length_append]
    omega
  rw [Context.update, if_neg hroom] at hbits ⊢
  refine ⟨?_, hbits, ?_⟩
  · rw [hblocks, compressAll_append_left _ _ _ _ hle]
    exact h.state
  · rw [hblocks, hrest, drop_append_of_le_length hle, ← h.buffer, h.index]
    exact Buffer.take_write c.buffer rfl (by omega)

/-- A chunk that finishes the block is folded as far as its last whole block; what is left of it
is the rest of the longer message. -/
lemma Holds.update_long (hlong : 64 ≤ m.length % 64 + chunk.length) :
    (c.update chunk).Holds (m ++ chunk) := by
  have hindex : c.index < 64 := by
    rw [h.index]
    omega
  have hroom : 64 - c.index ≤ chunk.length := by
    rw [h.index]
    omega
  -- the whole blocks of the message
  obtain ⟨whole, hwhole⟩ : ∃ whole, whole = m.take (64 * (m.length / 64)) := ⟨_, rfl⟩
  have hwlen : whole.length = 64 * (m.length / 64) := by
    rw [hwhole, length_take]
    omega
  have hm : m = whole ++ m.drop (64 * (m.length / 64)) := by rw [hwhole, take_append_drop]
  have hstate : c.state = compressAll (m.length / 64) initial whole := by
    rw [h.state]
    nth_rewrite 2 [hm]
    exact compressAll_append_left _ _ _ _ (Nat.le_of_eq hwlen.symm)
  -- the block that the chunk finishes, and what is left of the chunk
  obtain ⟨filled, hfilled⟩ :
      ∃ filled, filled = c.buffer.write c.index (chunk.take (64 - c.index)) := ⟨_, rfl⟩
  have hfilledBytes : filled.bytes =
      m.drop (64 * (m.length / 64)) ++ chunk.take (64 - c.index) := by
    have hwritten : c.index + (chunk.take (64 - c.index)).length = 64 := by
      rw [length_take]
      omega
    rw [← h.buffer, ← h.index, ← Buffer.take_write c.buffer hwritten Nat.le.refl, ← hfilled,
      take_of_length_le (Nat.le_of_eq filled.length_bytes)]
  obtain ⟨rest, hrest⟩ : ∃ rest, rest = chunk.drop (64 - c.index) := ⟨_, rfl⟩
  have hall : m ++ chunk = (whole ++ filled.bytes) ++ rest := by
    rw [hfilledBytes, hrest, append_assoc, append_assoc, take_append_drop, ← append_assoc, ← hm]
  have hblocks : (whole ++ filled.bytes).length = 64 * (m.length / 64 + 1) := by
    rw [length_append, hwlen, filled.length_bytes]
    omega
  have hupdate : c.update chunk =
      ⟨compressAll (rest.length / 64) (compress c.state filled.bytes) rest,
        c.bits + chunk.length.toUInt64 * 8,
        filled.write 0 (rest.drop (64 * (rest.length / 64)))⟩ := by
    rw [Context.update, if_pos hroom, hfilled, hrest]
  have hbits := h.bits_update chunk
  rw [hupdate, hall] at hbits ⊢
  refine ⟨?_, hbits, ?_⟩
  · rw [compressAll_blocks_append hblocks, compressAll_add,
      compressAll_append_left _ _ _ _ (Nat.le_of_eq hwlen.symm), ← hstate, ← hwlen,
      drop_left]
    simp only [compressAll, take_of_length_le (Nat.le_of_eq filled.length_bytes)]
  · have hleft : ((whole ++ filled.bytes) ++ rest).length % 64 =
        (rest.drop (64 * (rest.length / 64))).length := by
      rw [length_append, hblocks, length_drop]
      omega
    rw [drop_blocks_append hblocks, hleft]
    exact Buffer.take_write filled (Nat.zero_add _) (by rw [length_drop]; omega)

lemma Holds.update (chunk : List UInt8) : (c.update chunk).Holds (m ++ chunk) := by
  by_cases hshort : m.length % 64 + chunk.length < 64
  · exact h.update_short hshort
  · exact h.update_long (by omega)

lemma Holds.foldl_update (chunks : List (List UInt8)) :
    (chunks.foldl Context.update c).Holds (m ++ chunks.flatten) := by
  induction chunks generalizing c m with
  | nil => simpa using h
  | cons chunk rest ih => simpa [append_assoc] using ih (h.update chunk)

/-- At the end stands the digest of the message: what is taken in last makes it the padded one. -/
theorem Holds.finish : c.finish = md5 m := by
  have hpad : (0x80 :: List.replicate 63 0).take
      (if c.index < 56 then 56 - c.index else 120 - c.index) =
        0x80 :: List.replicate ((119 - m.length % 64) % 64) (0 : UInt8) := by
    obtain ⟨k, hk⟩ : ∃ k, (if c.index < 56 then 56 - c.index else 120 - c.index) = k + 1 ∧
        k = (119 - m.length % 64) % 64 := by
      rw [h.index]
      refine ⟨_, ?_, rfl⟩
      split <;> omega
    rw [hk.1, take_succ_cons, take_replicate, hk.2]
    congr 2
    omega
  -- the length that is taken in last is that of the message, not of the padding
  have hend := (h.update (0x80 :: List.replicate ((119 - m.length % 64) % 64) 0)).update
    (leBytes 8 (m.length * 8))
  have hstate := hend.state
  rw [Context.finish, hpad, h.bits, leBytes_mod, hstate]
  rfl

end

lemma finish_foldl_update (chunks : List (List UInt8)) :
    (chunks.foldl update start).finish = md5 chunks.flatten := by
  simpa using (holds_start.foldl_update chunks).finish

lemma finish_update (m : List UInt8) : (start.update m).finish = md5 m := by
  simpa using finish_foldl_update [m]

end Context

end ArmStudio.Digest
