import ArmStudio.Proofs.Quotients
import ArmStudio.Proofs.Truncation
import Mathlib.Data.Int.Bitwise

/-!
# Operators that are folded by other rules than they are run

Where constants are folded, division is real division, a remainder has the sign of the divisor and
logic gives one of its operands. The machine's division is cut towards zero, its remainder has the
sign of the dividend, and the code of logic works on the bits of both operands.
-/

namespace ArmStudio

open Script Code Number BitVec Value Int32

namespace Script

/-- What the code of division, remainder and logic computes. -/
def wordMeaning : Keyword → Option (Int32 → Int32 → Int32)
  | .divide => some (· / ·)
  | .modulo => some (· % ·)
  | .logicalAnd => some (· &&& ·)
  | .logicalOr => some (· ||| ·)
  | _ => none

/-- The operands on which an operator is folded to the number that its code computes. -/
def FoldsAsRun (op : Keyword) (a b : Int) : Prop :=
  match op with
  | .divide => b ∣ a
  | .modulo => b ∣ a ∨ (a < 0 ↔ b < 0)
  | .logicalAnd | .logicalOr => a = 0 ∨ ∀ i, b.testBit i = true → a.testBit i = true
  | _ => False

/-- An integer of 32 bits. -/
def IsInt32 (n : Int) : Prop := -2147483648 ≤ n ∧ n < 2147483648

instance (n : Int) : Decidable (IsInt32 n) := inferInstanceAs (Decidable (_ ∧ _))

lemma IsInt32.toInt_ofInt {n : Int} (h : IsInt32 n) : (ofInt n).toInt = n :=
  toInt_ofInt_of_le h.1 h.2

lemma IsInt32.natAbs_le {n : Int} (h : IsInt32 n) : n.natAbs ≤ 2147483648 := by
  obtain ⟨hlow, hhigh⟩ := h
  omega

/-! ## Folded values and words -/

namespace Value

/-- A folded value and a word are the same number. -/
def Denotes (v : Value) (w : Int32) : Prop := v.order? (.int w.toInt) = some .eq

variable {w : Int32} {n : Int}

lemma denotes_int : (int n).Denotes w ↔ n = w.toInt := by
  show some (compare n w.toInt) = some .eq ↔ _
  rw [Option.some.injEq, compare_eq_iff_eq]

lemma denotes_real {x : Double} : (real x).Denotes w ↔ Double.compareInt? w.toInt x = some .eq := by
  show (Double.compareInt? w.toInt x).map Ordering.swap = some .eq ↔ _
  cases Double.compareInt? w.toInt x with
  | none => simp
  | some o => cases o <;> simp

lemma denotes_ofInt (hn : IsInt32 n) : (int n).Denotes w ↔ w = Int32.ofInt n := by
  rw [denotes_int, ← Int32.toInt_inj, hn.toInt_ofInt, eq_comm]

end Value

/-! ## Division and remainder -/

section

variable {a b : Int}

lemma toInt_quotient (ha : IsInt32 a) (hb : IsInt32 b) (hwraps : ¬ (a = -2147483648 ∧ b = -1)) :
    (ofInt a / ofInt b).toInt = a.tdiv b := by
  have hcut : (ofInt a / ofInt b).toInt =
      (ofInt a).toInt.tdiv (ofInt b).toInt := by
    -- the one quotient that wraps has the least dividend and the divisor -1
    by_cases hmin : a = -2147483648
    · refine toInt_div_of_ne_right _ _ fun hone => hwraps ⟨hmin, ?_⟩
      rw [← hb.toInt_ofInt, hone]
      rfl
    · refine toInt_div_of_ne_left _ _ fun hleast => hmin ?_
      rw [← ha.toInt_ofInt, hleast]
      rfl
  rw [hcut, ha.toInt_ofInt, hb.toInt_ofInt]

lemma toInt_remainder (ha : IsInt32 a) (hb : IsInt32 b) :
    (ofInt a % ofInt b).toInt = a.tmod b := by
  rw [toInt_mod, ha.toInt_ofInt, hb.toInt_ofInt]

lemma eq_tdiv_mul_iff : a = a.tdiv b * b ↔ b ∣ a :=
  ⟨fun h => Dvd.intro_left _ h.symm, fun h => (Int.tdiv_mul_cancel h).symm⟩

lemma fmod_eq_tmod_iff (hb : b ≠ 0) : a.fmod b = a.tmod b ↔ b ∣ a ∨ (a < 0 ↔ b < 0) := by
  rw [Int.fmod_eq_tmod]
  by_cases hdvd : b ∣ a
  · simp [hdvd]
  · rw [if_neg hdvd]
    split <;> split <;> simp [hdvd] <;> omega

/-! ## Logic -/

lemma getLsbD_ofInt (n : Int) {i : Nat} (hi : i < 32) :
    (BitVec.ofInt 32 n).getLsbD i = n.testBit i := by
  cases n with
  | ofNat m => rw [Value.ofInt_ofNat, getLsbD_ofNat, decide_eq_true hi, Bool.true_and]; rfl
  | negSucc m =>
    rw [ofInt_negSucc_eq_not_ofNat, getLsbD_not, getLsbD_ofNat,
      decide_eq_true hi, Bool.true_and, Bool.true_and]
    rfl

lemma testBit_of_le {n : Int} (hn : IsInt32 n) {i : Nat} (hi : 31 ≤ i) :
    n.testBit i = n.testBit 31 := by
  obtain ⟨hlow, hhigh⟩ := hn
  have hclear {m j : Nat} (hm : m < 2147483648) (hj : 31 ≤ j) : m.testBit j = false :=
    Nat.testBit_lt_two_pow
      (Nat.lt_of_lt_of_le (show m < 2 ^ 31 from hm) (Nat.pow_le_pow_right Nat.two_pos hj))
  cases n with
  | ofNat m =>
    rw [Int.ofNat_eq_natCast] at hhigh
    simp [Int.testBit, hclear (show m < 2147483648 by omega), hi]
  | negSucc m => simp [Int.testBit, hclear (show m < 2147483648 by omega), hi]

lemma forall_testBit_iff (ha : IsInt32 a) (hb : IsInt32 b) : (∀ i, b.testBit i → a.testBit i) ↔
      ∀ i < 32, (BitVec.ofInt 32 b).getLsbD i → (BitVec.ofInt 32 a).getLsbD i := by
  constructor
  · intro h i hi
    rw [getLsbD_ofInt a hi, getLsbD_ofInt b hi]
    exact h i
  · intro h i
    have hsmall : ∀ j < 32, b.testBit j = true → a.testBit j = true := by
      intro j hj
      rw [← getLsbD_ofInt a hj, ← getLsbD_ofInt b hj]
      exact h j hj
    -- above the word, both integers go on with their signs
    by_cases hi : i < 32
    · exact hsmall i hi
    · rw [testBit_of_le ha (show 31 ≤ i by omega), testBit_of_le hb (show 31 ≤ i by omega)]
      exact hsmall 31 (by decide)

lemma and_eq_right_iff {x y : BitVec 32} : x &&& y = y ↔ ∀ i < 32, y.getLsbD i → x.getLsbD i := by
  rw [eq_of_getLsbD_eq_iff]
  simp [getLsbD_and]

lemma or_eq_left_iff {x y : BitVec 32} : x ||| y = x ↔ ∀ i < 32, y.getLsbD i → x.getLsbD i := by
  rw [eq_of_getLsbD_eq_iff]
  simp [getLsbD_or]

lemma ofInt_and_eq_right_iff (ha : IsInt32 a) (hb : IsInt32 b) :
    ofInt a &&& ofInt b = ofInt b ↔ ∀ i, b.testBit i → a.testBit i := by
  rw [forall_testBit_iff ha hb, ← and_eq_right_iff, ← toBitVec_inj]
  rfl

lemma ofInt_or_eq_left_iff (ha : IsInt32 a) (hb : IsInt32 b) :
    ofInt a ||| ofInt b = ofInt a ↔ ∀ i, b.testBit i → a.testBit i := by
  rw [forall_testBit_iff ha hb, ← or_eq_left_iff, ← toBitVec_inj]
  rfl

/-! ## Operators -/

/-- An operator is folded to some value, which is the number that its code computes on some operands
only. A folded quotient is not of integer type at all. -/
theorem evalBinary_denotes {op} {f}
    (hop : wordMeaning op = some f) (ha : IsInt32 a) (hb : IsInt32 b)
    (hquotient : op = .divide ∨ op = .modulo → b ≠ 0 ∧ ¬ (a = -2147483648 ∧ b = -1)) :
    ∃ v, evalBinary op (.int a) (.int b) = .ok (some v) ∧
      (v.Denotes (f (ofInt a) (ofInt b)) ↔ FoldsAsRun op a b) ∧
      (op = .divide → ∃ x, v = .real x) := by
  cases op <;> simp only [wordMeaning, Option.some.injEq, reduceCtorEq] at hop <;> subst hop
  case divide =>
    obtain ⟨hzero, hwraps⟩ := hquotient (.inl rfl)
    obtain ⟨x, hx, hequal⟩ := Double.compareInt?_ofQuotient ha.natAbs_le hb.natAbs_le hzero
    refine ⟨.real x, ?_, ?_, fun _ => ⟨x, rfl⟩⟩
    · simp [evalBinary, div, toInt?, hzero, hx, Except.map]
    · rw [denotes_real, hequal, toInt_quotient ha hb hwraps, eq_tdiv_mul_iff]
      rfl
  case modulo =>
    obtain ⟨hzero, -⟩ := hquotient (.inr rfl)
    refine ⟨.int (a.fmod b), ?_, ?_, by simp⟩
    · simp [evalBinary, mod, toInt?, hzero, Except.map]
    · rw [denotes_int, toInt_remainder ha hb, fmod_eq_tmod_iff hzero]
      rfl
  case logicalAnd =>
    -- the first operand if it is zero, and else the second one
    by_cases hzero : a = 0
    · subst hzero
      refine ⟨.int 0, rfl, ?_, by simp⟩
      rw [denotes_ofInt ha]
      exact iff_of_true (by simp) (.inl rfl)
    · refine ⟨.int b, by simp [evalBinary, truth, hzero], ?_, by simp⟩
      rw [denotes_ofInt hb, ofInt_and_eq_right_iff ha hb]
      exact (or_iff_right hzero).symm
  case logicalOr =>
    -- the second operand if the first one is zero, and else the first one
    by_cases hzero : a = 0
    · subst hzero
      refine ⟨.int b, rfl, ?_, by simp⟩
      rw [denotes_ofInt hb]
      exact iff_of_true (by simp) (.inl rfl)
    · refine ⟨.int a, by simp [evalBinary, truth, hzero], ?_, by simp⟩
      rw [denotes_ofInt ha, ofInt_or_eq_left_iff ha hb]
      exact (or_iff_right hzero).symm

end

end Script

/-! ## Runs -/

namespace Machine

section

variable {op : Keyword} {f : Int32 → Int32 → Int32}

lemma perform_wordMeaning (hop : wordMeaning op = some f) (sensors : Sensors) (v w : Int32) :
    ∃ g, Exec.perform sensors (binaryOpcode op) = Exec.binary g ∧
      g v.toUInt32 w.toUInt32 = (f v w).toUInt32 := by
  cases op <;> simp only [wordMeaning, Option.some.injEq, reduceCtorEq] at hop <;> subst hop <;>
    exact ⟨_, rfl, by simp [Exec.signed]⟩

def betweenLiterals (op : Keyword) (a b : Int) : Expr :=
  .binary op (.literal (.int a)) (.literal (.int b))

/-- The operands are pushed, and the operator's instruction follows. -/
def betweenLiteralsCode (op : Keyword) (a b : Int) : List Instr :=
  [literalCode (.int a), literalCode (.int b), .plain (binaryOpcode op)]

lemma isPlain_betweenLiteralsCode (op : Keyword) (a b : Int) :
    ∀ i ∈ betweenLiteralsCode op a b, i.IsPlain := by
  have hliteral (n : Int) : (literalCode (.int n)).IsPlain := ⟨by simp [literalCode], rfl, _, rfl⟩
  simp [betweenLiteralsCode, hliteral, isPlain_plain (binaryOpcode_ne_label op)
    (isJump_binaryOpcode op)]

lemma betweenLiterals_arrives (hop : wordMeaning op = some f) {image : Image}
    {place s} {h p : Nat} {m : State} {a b : Int}
    (hm : m.At image p) (hw : Within s h m) (hroom : h + 2 ≤ stackSize + 1)
    (hc : image.CodeAt place p (betweenLiteralsCode op a b)) :
    Arrives image 3 m (p + width (betweenLiteralsCode op a b))
      (Results s (f (ofInt a) (ofInt b)) true [] h m) := by
  have hleft : Computes image place (fun _ => .slot 0) (.literal (.int a)) := computes_literal a
  have hright : Computes image place (fun _ => .slot 0) (.literal (.int b)) := computes_literal b
  have hlabel := binaryOpcode_ne_label op
  have hsplit : betweenLiteralsCode op a b =
      [literalCode (.int a), literalCode (.int b)] ++ [.plain (binaryOpcode op)] := rfl
  rw [hsplit, Image.codeAt_append] at hc
  have hopnds := operands_arrive hleft hright (by simp [Expr.mentioned]) hm hw hroom hc.1
  have harrives := hopnds.trans fun m1 hm1 hq => by
    obtain ⟨hw1, hlower, hupper, hu1⟩ := hq
    exact (operator_arrives hm1 hw1 hlower hupper (hu1.inside hw) (by omega) hlabel
      (isJump_binaryOpcode op) (fun sensors => perform_wordMeaning hop sensors _ _) hc.2).imp
      fun m2 hr2 => (hr2.behind hu1).append_nil
  have hwidth : p + width (betweenLiteralsCode op a b) = p + 5 + 5 + 1 := by
    simp only [betweenLiteralsCode, width_cons, width_nil, width_plain hlabel]
    rfl
  rwa [hwidth]

/-- Division, remainder or logic between integer literals of 32 bits is folded to a value. The
assembler has code for the expression as it stands, and the code has bytes; where the machine comes
to these bytes inside a frame with room, it runs to their end and leaves one word above a stack that
is otherwise as before. Only on some operands is that word the folded number, and a folded quotient
is never of integer type. -/
theorem folds_as_run_iff (hop : wordMeaning op = some f) {a b : Int} (ha : IsInt32 a)
    (hb : IsInt32 b)
    (hquotient : op = .divide ∨ op = .modulo → b ≠ 0 ∧ ¬ (a = -2147483648 ∧ b = -1))
    (storage : Storage) (symbols : Symbols) (cell : String → Cell) :
    ∃ v code parts, evalConst (betweenLiterals op a b) = .ok (some v) ∧
      exprCode storage symbols true (betweenLiterals op a b) = .ok code ∧
      code.mapM Instr.bytes = .ok parts ∧
      (∀ m : State, ReadyFor cell (betweenLiterals op a b) m →
        m.image.Holds m.pc.toNat parts.flatten → ∀ sensors : Nat → Sensors,
          (∀ k ≤ code.length, (m.after sensors k).status = .running) ∧
          (m.after sensors code.length).At m.image (m.pc.toNat + parts.flatten.length) ∧
          (m.after sensors code.length).top.toNat = m.top.toNat + 1 ∧
          (m.after sensors code.length).stack[m.top.toNat]? =
            some (f (ofInt a) (ofInt b)).toUInt32 ∧
          Unchanged [] m.top.toNat m (m.after sensors code.length)) ∧
      (v.Denotes (f (ofInt a) (ofInt b)) ↔ FoldsAsRun op a b) ∧
      (op = .divide → ∃ x, v = .real x) := by
  obtain ⟨v, hfold, hdenotes, hreal⟩ := evalBinary_denotes hop ha hb hquotient
  obtain ⟨parts, hparts, hrun⟩ := bytes_run (isPlain_betweenLiteralsCode op a b)
  have hcast : op ≠ .kwAs := by
    rintro rfl
    cases hop
  have hassign : op ≠ .assign := by
    rintro rfl
    cases hop
  have hconst : evalConst (betweenLiterals op a b) = .ok (some v) :=
    evalConst_binary hcast rfl rfl hfold
  refine ⟨v, betweenLiteralsCode op a b, parts, hconst,
    (by cases op <;> first | rfl | cases hop), hparts, fun m hready hholds sensors => ?_, hdenotes,
    hreal⟩
  have hroom : m.top.toNat + 2 ≤ stackSize + 1 := by
    have hheight := hready.room
    rwa [betweenLiterals, Expr.height, if_neg hassign] at hheight
  obtain ⟨hway, hat, hr⟩ := hrun m _ hready.running hready.idle hholds
    (fun place hm hc => betweenLiterals_arrives hop hm hready.within hroom hc) sensors
  exact ⟨hway, hat, hr.within.top, hr.value rfl, hr.unchanged⟩

end

/-- The code of `7 % -3` is entered. -/
def remainderState : State := stateBefore #[20, 7, 0, 0, 0, 20, 253, 255, 255, 255, 37]

theorem folds_as_run_iff_remainder : wordMeaning .modulo = some (· % ·) ∧ IsInt32 7 ∧ IsInt32 (-3) ∧
      ReadyFor (fun _ => .slot 0) (betweenLiterals .modulo 7 (-3)) remainderState ∧
      evalConst (betweenLiterals .modulo 7 (-3)) = .ok (some (.int (-2))) ∧
      (∀ sensors : Nat → Sensors, (remainderState.after sensors 3).status = .running ∧
        (remainderState.after sensors 3).top.toNat = 5 ∧
        (remainderState.after sensors 3).stack[4]? = some 1) ∧
      ¬ (int (-2)).Denotes (ofInt 7 % ofInt (-3)) := by
  have hready : ReadyFor (fun _ => .slot 0) (betweenLiterals .modulo 7 (-3)) remainderState :=
    ⟨rfl, rfl, by simp [remainderState, stateBefore], by decide, by decide,
      by simp [betweenLiterals, Expr.mentioned], by decide⟩
  obtain ⟨v, code, parts, hfold, hcode, hparts, hruns, hdenotes, -⟩ :=
    @folds_as_run_iff .modulo _ rfl 7 (-3) (by decide) (by decide) (by decide)
      ⟨.empty, .empty, .empty⟩ ⟨.empty, [], 0⟩ fun _ => .slot 0
  have hfolded : evalConst (betweenLiterals .modulo 7 (-3)) = .ok (some (.int (-2))) := rfl
  cases hfolded.symm.trans hfold
  have hmade : exprCode ⟨.empty, .empty, .empty⟩ ⟨.empty, [], 0⟩ true
      (betweenLiterals .modulo 7 (-3)) = .ok (betweenLiteralsCode .modulo 7 (-3)) := rfl
  cases hmade.symm.trans hcode
  have hbytes : (betweenLiteralsCode .modulo 7 (-3)).mapM Instr.bytes = .ok
      [[20, 7, 0, 0, 0], [20, 253, 255, 255, 255], [37]] := rfl
  cases hbytes.symm.trans hparts
  have hholds : remainderState.image.Holds remainderState.pc.toNat
      [20, 7, 0, 0, 0, 20, 253, 255, 255, 255, 37] := ⟨by decide, by decide⟩
  refine ⟨rfl, by decide, by decide, hready, hfolded, fun sensors => ?_, fun hsame => ?_⟩
  · obtain ⟨hrunning, -, htop, hword, -⟩ := hruns remainderState hready hholds sensors
    exact ⟨hrunning 3 le_rfl, htop, hword⟩
  · have hagree : (-3 : Int) ∣ 7 ∨ ((7 : Int) < 0 ↔ (-3 : Int) < 0) := hdenotes.1 hsame
    revert hagree
    decide

end Machine

end ArmStudio
