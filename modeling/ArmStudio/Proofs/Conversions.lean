import ArmStudio.Proofs.Neutrality

/-!
# What conversions leave on the stack

The code of a conversion should leave the converted value of its operand where a result is wanted,
and nothing where it is not. It has no look at whether a result is wanted, and a conversion to the
type that the operand already has is no code at all.
-/

namespace ArmStudio

open Script Code

namespace Code

variable {valued : String → Bool}

lemma Parts.unique {code} {d d' : Int} (h : Parts valued code d)
    (h' : Parts valued code d') : d = d' := by
  induction h generalizing d' with
  | nil =>
    cases h'
    rfl
  | op hstr _ _ ih =>
    cases h' with
    | op _ _ hrest => rw [ih hrest]
    | call _ => cases hstr
  | @call func n rest d _ ih =>
    generalize hcall : (⟨.call, [.label func none, .u8 (.ofInt n)]⟩ : Instr) = i at h'
    cases h' with
    | op hstr =>
      subst hcall
      cases hstr
    | call hrest =>
      simp only [Instr.mk.injEq, List.cons.injEq, Operand.label.injEq, Operand.u8.injEq,
        Payload.ofInt, Payload.value.injEq, Value.int.injEq, Int.natCast_inj] at hcall
      obtain ⟨_, ⟨rfl, _⟩, rfl, _⟩ := hcall
      rw [ih hrest]

def conversionOp : VarType → Opcode
  | .int => .f2i
  | _ => .i2f

end Code

namespace Machine

section

variable {image : Image} {place : String → Int} {valued : String → Bool} {a k : Nat}
  {code : List Instr} {m m' : State}

lemma standing_behind_parts {f n : UInt8} {h d : Int} (hparts : Parts valued code d)
    (hplaced : image.CodeAt place a code) (hstart : Standing image f n a h m)
    (hpath : Path valued a code k m m') (hend : m'.pc.toNat = a + width code) :
    Standing image f n (a + width code) (h + d) m' := by
  have hbehind : PathsEnd image valued a code f n (· = h + d) k (a + width ([] ++ code)) (h + d) :=
    ends_behind rfl
  have hcode : code = [] ++ code ++ [] := by simp
  have hends := ends_parts hparts hplaced hcode hbehind
  obtain ⟨_, rfl, hm'⟩ := hends k le_rfl m m' hstart hpath hend
  exact hm'

lemma Path.stack_nil (hpath : Path valued a [] k m m') : m'.stack = m.stack := by
  induction hpath with
  | refl => rfl
  | head hmove _ ih =>
    rw [ih]
    cases hmove with
    | poll sensors hwaits =>
      rcases State.step_waiting hwaits sensors with hafter | hafter <;> rw [hafter]
    | step _ hcode | call _ _ hcode => simp at hcode

end

/-- A conversion to a type of numbers, of an operand whose code leaves one word. It has code, and
the code leaves one word where a result is wanted and none where it is not exactly if a result is
wanted of another type than the operand's, or none of the same type: a conversion to another type
always leaves its result, and one to the same type has no code, so that every path through it leaves
the stack as it was. -/
theorem conversion_leaves_iff {storage : Storage} {symbols : Symbols} {valued : String → Bool}
    {e : Expr} {t target : VarType} {operand : List Instr} (htype : typeOf symbols e = .ok t)
    (htarget : target = .int ∨ target = .float)
    (hmade : exprCode storage symbols true e = .ok operand) (hone : Parts valued operand 1)
    (wanted : Bool) :
    ∃ code, exprCode storage symbols wanted (e.convert target) = .ok code ∧
      (Parts valued code (nominal wanted) ↔ (wanted = true ↔ target ≠ t)) ∧
      (target = t → code = []) ∧
      (target ≠ t → code = operand ++ [.plain (conversionOp target)]) ∧
      ∀ {image : Image} {place : String → Int} {a k : Nat} {h : Int} {m m' : State},
        image.CodeAt place a code → Standing image m.frame m.locals a h m →
        Path valued a code k m m' → m'.pc.toNat = a + width code →
          m'.top.toNat = m.top.toNat + (if target = t then 0 else 1) ∧
          (target = t → m'.stack = m.stack) := by
  by_cases hsame : target = t
  -- no code at all, also where a result is wanted
  · refine ⟨[], exprCode_as.2 ⟨target, t, rfl, htype, .inl ⟨hsame, rfl⟩⟩, ?_, fun _ => rfl,
      fun hdiff => absurd hsame hdiff, fun hplaced hstart hpath hend => ?_⟩
    · have hnone : Parts valued [] 0 := .nil
      cases wanted with
      | true => simpa [hsame] using fun hleft => absurd (hnone.unique hleft) (by decide)
      | false => simpa [hsame, nominal] using hnone
    · have hm' := standing_behind_parts .nil hplaced hstart hpath hend
      have htop := hstart.top
      have htop' := hm'.top
      refine ⟨?_, fun _ => hpath.stack_nil⟩
      rw [if_pos hsame]
      omega
  -- the converted operand, also where no result is wanted
  · have hparts : Parts valued (conversionCode target operand) 1 := parts_conversionCode hone
    refine ⟨conversionCode target operand,
      exprCode_as.2 ⟨target, t, rfl, htype, .inr ⟨hsame, operand, hmade, rfl⟩⟩, ?_,
      fun heq => absurd heq hsame, fun _ => by rcases htarget with rfl | rfl <;> rfl,
      fun hplaced hstart hpath hend => ?_⟩
    · cases wanted with
      | true => simpa [hsame] using hparts
      | false => simpa [hsame] using fun hleft => absurd (hparts.unique hleft) (by decide)
    · have hm' := standing_behind_parts hparts hplaced hstart hpath hend
      have htop := hstart.top
      have htop' := hm'.top
      refine ⟨?_, fun heq => absurd heq hsame⟩
      rw [if_neg hsame]
      omega

/-- An integer variable, the first of the globals. -/
def counter : Expr := .var "n" (.ofVar .int false)

def counterStorage : Storage := ⟨.empty, ⟨[("n", ⟨.int, 0⟩)]⟩, .empty⟩

/-- An integer as an integer has no code where it is wanted, and as a floating-point number it stays
on the stack where it is not. -/
theorem conversion_leaves_iff_counter :
    exprCode counterStorage ⟨.empty, [], 0⟩ true counter = .ok [⟨.loadg, [.u16 (.ofInt 0)]⟩] ∧
      Parts (fun _ => true) [⟨.loadg, [.u16 (.ofInt 0)]⟩] 1 ∧
      (∃ code, exprCode counterStorage ⟨.empty, [], 0⟩ true (counter.convert .int) = .ok code ∧
        code = [] ∧ ¬ Parts (fun _ => true) code (nominal true)) ∧
      ∃ code, exprCode counterStorage ⟨.empty, [], 0⟩ false (counter.convert .float) = .ok code ∧
        code = [⟨.loadg, [.u16 (.ofInt 0)]⟩, .plain .i2f] ∧
        ¬ Parts (fun _ => true) code (nominal false) := by
  have hmade : exprCode counterStorage ⟨.empty, [], 0⟩ true counter =
      .ok [⟨.loadg, [.u16 (.ofInt 0)]⟩] := rfl
  have hone : Parts (fun _ => true) [⟨.loadg, [.u16 (.ofInt 0)]⟩] 1 := .single rfl rfl
  have htype : typeOf ⟨.empty, [], 0⟩ counter = .ok .int := rfl
  refine ⟨hmade, hone, ?_, ?_⟩
  · obtain ⟨code, hcode, hleaves, hempty, -⟩ :=
      conversion_leaves_iff htype (.inl rfl) hmade hone true
    exact ⟨code, hcode, hempty rfl, fun hparts => by simpa using hleaves.1 hparts⟩
  · obtain ⟨code, hcode, hleaves, -, hmore, -⟩ :=
      conversion_leaves_iff htype (.inr rfl) hmade hone false
    exact ⟨code, hcode, hmore (by decide), fun hparts => by simpa using hleaves.1 hparts⟩

end Machine

end ArmStudio
