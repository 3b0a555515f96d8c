import ArmStudio.Proofs.ExprRuns
import ArmStudio.Script.Folding

/-!
# Folding commutes with truncation to 32 bits

Sums, differences, products, negation and bitwise operators are computed on unbounded integers where
constants are folded, and on words of 32 bits where their code is run. Cutting integers down to
words commutes with each of them, and so with every expression that is built from them.
-/

namespace ArmStudio

open Script Code BitVec Expr

namespace Script.Value

lemma ofInt_ofNat (w m : Nat) : BitVec.ofInt w (.ofNat m) = BitVec.ofNat w m := ofInt_natCast w m

lemma and_add_and_not {w : Nat} (x y : BitVec w) : (x &&& y) + (x &&& ~~~y) = x := by
  have hdisj : x &&& y &&& (x &&& ~~~y) = 0#w := by
    ext i
    simp only [getElem_and, getElem_not, getElem_zero]
    cases x[i] <;> cases y[i] <;> rfl
  -- nothing is carried where no bit is set in both
  rw [add_eq_or_of_and_eq_zero _ _ hdisj]
  ext i
  simp only [getElem_or, getElem_and, getElem_not]
  cases x[i] <;> cases y[i] <;> rfl

lemma ofNat_sub_and (w m n : Nat) :
    BitVec.ofNat w (m - (m &&& n)) = BitVec.ofNat w m &&& ~~~BitVec.ofNat w n := by
  have hsum : (BitVec.ofNat w m &&& BitVec.ofNat w n) + BitVec.ofNat w (m - (m &&& n)) =
      BitVec.ofNat w m := by
    rw [← ofNat_and, ← ofNat_add, Nat.add_sub_cancel' Nat.and_le_left]
  exact (BitVec.add_right_inj _).1 (hsum.trans (and_add_and_not _ _).symm)

section

variable (w : Nat) (m n : Int)

lemma ofInt_intAnd : BitVec.ofInt w (intAnd m n) = BitVec.ofInt w m &&& BitVec.ofInt w n := by
  cases m with
  | ofNat m =>
    cases n with
    | ofNat n => simp only [intAnd, ofInt_ofNat, ofNat_and]
    | negSucc n => simp only [intAnd, ofInt_ofNat, ofInt_negSucc_eq_not_ofNat, ofNat_sub_and]
  | negSucc m =>
    cases n with
    | ofNat n =>
      simp only [intAnd, ofInt_ofNat, ofInt_negSucc_eq_not_ofNat, ofNat_sub_and, BitVec.and_comm]
    | negSucc n => simp only [intAnd, ofInt_negSucc_eq_not_ofNat, ofNat_or, BitVec.not_or]

lemma ofInt_intNot : BitVec.ofInt w (intNot m) = ~~~BitVec.ofInt w m := by
  cases m with
  | ofNat m =>
    have hnot : intNot (.ofNat m) = .negSucc m := by
      simp only [intNot, Int.ofNat_eq_natCast]
      omega
    rw [hnot, ofInt_negSucc_eq_not_ofNat, ofInt_ofNat]
  | negSucc m =>
    have hnot : intNot (.negSucc m) = .ofNat m := by
      simp only [intNot, Int.ofNat_eq_natCast]
      omega
    rw [hnot, ofInt_negSucc_eq_not_ofNat, ofInt_ofNat, BitVec.not_not]

lemma ofInt_intOr : BitVec.ofInt w (intOr m n) = BitVec.ofInt w m ||| BitVec.ofInt w n := by
  rw [intOr, ofInt_intNot, ofInt_intAnd, ofInt_intNot, ofInt_intNot,
    ← BitVec.not_or, BitVec.not_not]

lemma ofInt_intXor : BitVec.ofInt w (intXor m n) = BitVec.ofInt w m ^^^ BitVec.ofInt w n := by
  cases m with
  | ofNat m =>
    cases n with
    | ofNat n => simp only [intXor, ofInt_ofNat, ofNat_xor]
    | negSucc n =>
      simp only [intXor, ofInt_ofNat, ofInt_negSucc_eq_not_ofNat, ofNat_xor, not_xor_right]
  | negSucc m =>
    cases n with
    | ofNat n =>
      simp only [intXor, ofInt_ofNat, ofInt_negSucc_eq_not_ofNat, ofNat_xor, not_xor_left]
    | negSucc n =>
      simp only [intXor, ofInt_ofNat, ofInt_negSucc_eq_not_ofNat, ofNat_xor,
        ← not_xor_left, ← not_xor_right, BitVec.not_not]

end

end Script.Value

/-! ## Expressions -/

namespace Script

/-- The operators between integers whose result modulo a power of two hangs on their operands modulo
that power alone. -/
def modularMeaning : Keyword → Option (Int → Int → Int)
  | .plus => some (· + ·)
  | .minus => some (· - ·)
  | .times => some (· * ·)
  | .bitAnd => some Value.intAnd
  | .bitOr => some Value.intOr
  | .bitXor => some Value.intXor
  | _ => none

/-- Integer literals of any size under negation and the operators above. -/
def Expr.isModular : Expr → Bool
  | .literal (.int _) => true
  | .unary op e => decide (op = .minus) && e.isModular
  | .binary op a b => (modularMeaning op).isSome && a.isModular && b.isModular
  | _ => false

variable {op : Keyword} {f : Int → Int → Int} {e : Expr}

section

variable (h : modularMeaning op = some f)

include h

lemma evalBinary_modular (m n : Int) :
    evalBinary op (.int m) (.int n) = .ok (some (.int (f m n))) := by
  cases op <;> simp only [modularMeaning, Option.some.injEq, reduceCtorEq] at h <;> subst h <;> rfl

lemma binaryMeaning_modular : ∃ g, binaryMeaning op = some g ∧
      ∀ m n, Int32.ofInt (f m n) = g (Int32.ofInt m) (Int32.ofInt n) := by
  have hbits {x y : Int32} (hxy : x.toBitVec = y.toBitVec) : x = y := Int32.toBitVec_inj.1 hxy
  cases op <;> simp only [modularMeaning, Option.some.injEq, reduceCtorEq] at h <;> subst h
  case plus => exact ⟨_, rfl, Int32.ofInt_add⟩
  case minus => exact ⟨_, rfl, Int32.ofInt_sub⟩
  case times => exact ⟨_, rfl, Int32.ofInt_mul⟩
  case bitAnd => exact ⟨_, rfl, fun m n => hbits (Value.ofInt_intAnd 32 m n)⟩
  case bitOr => exact ⟨_, rfl, fun m n => hbits (Value.ofInt_intOr 32 m n)⟩
  case bitXor => exact ⟨_, rfl, fun m n => hbits (Value.ofInt_intXor 32 m n)⟩

lemma isAssignment_of_modular : op.isAssignment = false := by
  cases op <;> first | rfl | cases h

end

lemma isIntegral_of_isModular (he : e.isModular) : e.isIntegral ∧ e.mentioned = [] := by
  induction e with
  | literal value => cases value <;> simp_all [isModular, isIntegral, mentioned]
  | unary op a ih =>
    simp only [isModular, Bool.and_eq_true, decide_eq_true_eq] at he
    obtain ⟨rfl, ha⟩ := he
    simpa [isIntegral, mentioned, unaryMeaning] using ih ha
  | binary op a b iha ihb =>
    simp only [isModular, Bool.and_eq_true] at he
    obtain ⟨⟨hop, ha⟩, hb⟩ := he
    obtain ⟨f, hf⟩ := Option.isSome_iff_exists.1 hop
    obtain ⟨g, hg, -⟩ := binaryMeaning_modular hf
    simp [isIntegral, mentioned, hg, isAssignment_of_modular hf, iha ha, ihb hb]
  | _ => simp [isModular] at he

lemma assigned_of_isModular (he : e.isModular) : e.assigned = [] :=
  List.eq_nil_iff_forall_not_mem.2 fun x hx => by
    have hmem := mem_mentioned_of_mem_assigned hx
    rw [(isIntegral_of_isModular he).2] at hmem
    cases hmem

lemma evalConst_binary {a b : Expr} {x y : Value} {r} (hcast : op ≠ .kwAs)
    (ha : evalConst a = .ok (some x)) (hb : evalConst b = .ok (some y))
    (hr : evalBinary op x y = .ok r) : evalConst (.binary op a b) = .ok r := by
  rw [evalConst, ha, hb]
  · show (evalBinary op x y).mapError FoldError.arith = _
    rw [hr]
    rfl
  · exact hcast

/-- A modular expression is folded to an integer, and its value in 32 bits is that integer cut to 32
bits, however large the integers on the way are. -/
theorem evalConst_modular (he : e.isModular) (cell : String → Cell) (s : Cell → Int32) :
    ∃ v, evalConst e = .ok (some (.int v)) ∧ evaluate cell e s = (Int32.ofInt v, s) := by
  induction e with
  | literal value =>
    cases value with
    | int n => exact ⟨n, rfl, rfl⟩
    | _ => simp [isModular] at he
  | unary op a ih =>
    simp only [isModular, Bool.and_eq_true, decide_eq_true_eq] at he
    obtain ⟨rfl, ha⟩ := he
    obtain ⟨v, hfold, hval⟩ := ih ha
    refine ⟨-v, by rw [evalConst, hfold]; rfl, ?_⟩
    rw [evaluate, hval, Int32.ofInt_neg]
    rfl
  | binary op a b iha ihb =>
    simp only [isModular, Bool.and_eq_true] at he
    obtain ⟨⟨hop, ha⟩, hb⟩ := he
    obtain ⟨f, hf⟩ := Option.isSome_iff_exists.1 hop
    obtain ⟨g, hg, htrunc⟩ := binaryMeaning_modular hf
    obtain ⟨x, hfoldx, hx⟩ := iha ha
    obtain ⟨y, hfoldy, hy⟩ := ihb hb
    have hassign := isAssignment_of_modular hf
    have hne : op ≠ .assign := by
      rintro rfl
      cases hassign
    have hcast : op ≠ .kwAs := by
      rintro rfl
      cases hf
    -- the operands may be of any size: on both sides only their last 32 bits count
    refine ⟨f x y, evalConst_binary hcast hfoldx hfoldy (evalBinary_modular hf x y), ?_⟩
    simp [evaluate, hne, hx, hy, hg, hassign, htrunc]
  | _ => simp [isModular] at he

end Script

/-! ## Runs -/

namespace Machine

lemma toNat_ofInt (n : Int) : ((Int32.ofInt n).toUInt32.toNat : Int) = n % 4294967296 := by
  rw [← toUInt32_lowBytes, Image.lowBytes_four]
  simp only [Nat.toUInt32_eq, UInt32.toNat_ofNat']
  omega

/-- A modular expression is folded to an unbounded integer. The assembler has code for the
expression as it stands, and the code has bytes; where the machine comes to these bytes inside a
frame with room, it runs to their end and leaves one word, the folded integer modulo `2 ^ 32`, above
a stack that is otherwise as before. -/
theorem modular_folds_and_runs {e : Expr} (he : e.isModular = true) (storage : Storage)
    (symbols : Symbols) (cell : String → Cell) :
    ∃ v code parts, evalConst e = .ok (some (.int v)) ∧
      exprCode storage symbols true e = .ok code ∧ code.mapM Instr.bytes = .ok parts ∧
      ∀ m : State, ReadyFor cell e m → m.image.Holds m.pc.toNat parts.flatten →
        ∀ sensors : Nat → Sensors, (∀ k ≤ code.length, (m.after sensors k).status = .running) ∧
          (m.after sensors code.length).At m.image (m.pc.toNat + parts.flatten.length) ∧
          (m.after sensors code.length).top.toNat = m.top.toNat + 1 ∧
          (∃ w, (m.after sensors code.length).stack[m.top.toNat]? = some w ∧
            (w.toNat : Int) = v % 4294967296) ∧
          Unchanged [] m.top.toNat m (m.after sensors code.length) := by
  obtain ⟨hintegral, hclosed⟩ := isIntegral_of_isModular he
  obtain ⟨parts, hparts, hrun⟩ := bytes_run (isPlain_coreExpr hintegral true)
  obtain ⟨v, hfold, -⟩ := evalConst_modular he cell fun _ => 0
  refine ⟨v, _, parts, hfold, exprCode_integral hintegral (by simp [hclosed]) true, hparts,
    fun m hready hholds sensors => ?_⟩
  obtain ⟨hway, hat, hr⟩ := hrun m _ hready.running hready.idle hholds
    (fun place hm hcode =>
      computes_of_isIntegral hintegral hready.covers hm hready.within hready.room hcode) sensors
  refine ⟨hway, hat, hr.within.top, ⟨_, hr.value rfl, ?_⟩, ?_⟩
  · obtain ⟨v', hfold', hval⟩ := evalConst_modular he cell m.valueIn
    cases hfold.symm.trans hfold'
    rw [hval, toNat_ofInt]
  · have hunchanged := hr.unchanged
    rwa [assigned_of_isModular he] at hunchanged

/-- The machine before some bytes, in a frame without locals at the second word. -/
def stateBefore (bytes : Array UInt8) : State where
  image := ⟨bytes, 0, 0, 0, bytes.size.toUInt16⟩
  stack := Array.replicate (stackSize + 1) 7
  top := 4
  frame := 1

/-- The expression `(4294967297 * -3) ^ 5000000000`. -/
def wide : Expr := .binary .bitXor
    (.binary .times (.literal (.int 4294967297)) (.unary .minus (.literal (.int 3))))
    (.literal (.int 5000000000))

def wideCode : List Instr :=
  [literalCode (.int 4294967297), literalCode (.int 3), .plain .ineg, .plain .imul,
    literalCode (.int 5000000000), .plain .bxor]

def wideState : State :=
  stateBefore #[20, 1, 0, 0, 0, 20, 3, 0, 0, 0, 38, 35, 20, 0, 242, 5, 42, 83]

theorem modular_folds_and_runs_wide : evalConst wide = .ok (some (.int (-9294967299))) ∧
      ReadyFor (fun _ => .slot 0) wide wideState ∧ ∀ sensors : Nat → Sensors,
        (wideState.after sensors 6).status = .running ∧
        (wideState.after sensors 6).top.toNat = 5 ∧
        ∃ w, (wideState.after sensors 6).stack[4]? = some w ∧
          (w.toNat : Int) = -9294967299 % 4294967296 := by
  have hready : ReadyFor (fun _ => .slot 0) wide wideState :=
    ⟨rfl, rfl, by simp [wideState, stateBefore], by decide, by decide,
      by simp [wide, mentioned], by decide⟩
  obtain ⟨v, code, parts, hfold, hcode, hparts, hruns⟩ :=
    @modular_folds_and_runs wide rfl ⟨.empty, .empty, .empty⟩ ⟨.empty, [], 0⟩ fun _ => .slot 0
  have hfolded : evalConst wide = .ok (some (.int (-9294967299))) := rfl
  cases hfolded.symm.trans hfold
  have hmade : exprCode ⟨.empty, .empty, .empty⟩ ⟨.empty, [], 0⟩ true wide = .ok wideCode := rfl
  cases hmade.symm.trans hcode
  have hbytes : wideCode.mapM Instr.bytes = .ok
      [[20, 1, 0, 0, 0], [20, 3, 0, 0, 0], [38], [35], [20, 0, 242, 5, 42], [83]] := rfl
  cases hbytes.symm.trans hparts
  have hholds : wideState.image.Holds wideState.pc.toNat
      [20, 1, 0, 0, 0, 20, 3, 0, 0, 0, 38, 35, 20, 0, 242, 5, 42, 83] := ⟨by decide, by decide⟩
  refine ⟨hfolded, hready, fun sensors => ?_⟩
  obtain ⟨hrunning, -, htop, hword, -⟩ := hruns wideState hready hholds sensors
  exact ⟨hrunning 6 le_rfl, htop, hword⟩

end Machine

end ArmStudio
