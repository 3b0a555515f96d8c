import ArmStudio.Code.Image
import ArmStudio.Proofs.Attempts

/-!
# Encoded instructions

The bytes of an instruction once every label has a place, without the linker.

`encodedCode_relabel` says what changes when one label gets another place: the two bytes at each
of its jump sites, and nothing else.
-/

namespace ArmStudio.Code

open List Instr

def Operand.width : Operand → Nat
  | .u8 _ => 1
  | .u16 _ => 2
  | .u32 _ => 4
  | .f32 _ => 4
  | .label .. => 2

def argsWidth : List Operand → Nat
  | [] => 0
  | a :: rest => a.width + argsWidth rest

namespace Instr

variable (i : Instr)

/-- The number of bytes of an instruction; a label has none. -/
def width : Nat := if i.op = .label then 0 else 1 + argsWidth i.args

def mark? : Option String :=
  if i.op = .label then
    match i.args with
    | .label name _ :: _ => some name
    | _ => none
  else none

def target? : Option String :=
  if i.op.isJump then
    match i.args with
    | .label name _ :: _ => some name
    | _ => none
  else none

variable (place : String → Int)

def resolve (i : Instr) : Instr :=
  if i.op.isJump then
    match i.args with
    | .label name _ :: rest => ⟨i.op, .label name (some (place name)) :: rest⟩
    | _ => i
  else i

def encoded (i : Instr) : List UInt8 :=
  if i.op = .label then []
  else match (i.resolve place).bytes with
    | .ok bytes => bytes
    | .error _ => []

/-- Instructions that have bytes wherever labels are: labels and jumps name a label, and all other
operands are numbers. -/
def Fits : Prop :=
  if i.op = .label then ∃ name address rest, i.args = .label name address :: rest
  else if i.op.isJump then
    ∃ name address rest bytes, i.args = .label name address :: rest ∧ argBytes rest = .ok bytes
  else ∃ bytes, i.bytes = .ok bytes

end Instr

def width : List Instr → Nat
  | [] => 0
  | i :: rest => i.width + width rest

@[simp] lemma width_nil : width [] = 0 := rfl

@[simp] lemma width_cons (i : Instr) (is : List Instr) : width (i :: is) = i.width + width is := rfl

@[simp] lemma width_labelInstr (name : String) : (labelInstr name).width = 0 := rfl

@[simp] lemma width_jmp (name : String) : (jumpInstr .jmp name).width = 3 := rfl

@[simp] lemma width_jz (name : String) : (jumpInstr .jz name).width = 3 := rfl

@[simp] lemma width_append (xs ys : List Instr) : width (xs ++ ys) = width xs + width ys := by
  induction xs with
  | nil => simp
  | cons i rest ih => simp [ih, add_assoc]

lemma width_plain {op} (h : op ≠ .label) : (Instr.plain op).width = 1 := by
  simp [Instr.plain, Instr.width, h, argsWidth]

variable (place : String → Int)

def encodedCode (is : List Instr) : List UInt8 :=
  is.flatMap (encoded place)

@[simp] lemma encodedCode_nil : encodedCode place [] = [] := rfl

@[simp] lemma encodedCode_cons (i : Instr) (is : List Instr) :
    encodedCode place (i :: is) = i.encoded place ++ encodedCode place is := by
  simp [encodedCode]

@[simp] lemma encodedCode_append (xs ys : List Instr) :
    encodedCode place (xs ++ ys) = encodedCode place xs ++ encodedCode place ys := by
  simp [encodedCode]

/-! ## Numbers of bytes -/

@[simp] lemma length_intBytes (count : Nat) (n : Int) : (intBytes count n).length = count := by
  induction count generalizing n with
  | zero => rfl
  | succ count ih => simp [intBytes, ih]

variable {p : Payload} {bytes : List UInt8} {is : List Instr}

lemma length_wordBytes {count : Nat} (h : wordBytes count p = .ok bytes) :
    bytes.length = count := by
  cases p with
  | value v =>
    cases hv : v.toInt? with
    | none => simp [wordBytes, hv] at h
    | some n =>
      simp only [wordBytes, hv, Except.ok.injEq] at h
      simp [← h]
  | text | nothing => simp [wordBytes] at h

lemma length_realBytes (h : realBytes p = .ok bytes) : bytes.length = 4 := by
  cases p with
  | value v =>
    cases hv : v.toReal with
    | error e => simp [realBytes, hv] at h
    | ok x =>
      simp only [realBytes, hv] at h
      split at h
      · cases h
      · cases h
        exact length_intBytes 4 _
  | text | nothing => simp [realBytes] at h

lemma Operand.length_bytes {a : Operand} (h : a.bytes = .ok bytes) : bytes.length = a.width := by
  cases a with
  | u8 | u16 | u32 => exact length_wordBytes h
  | f32 p => exact length_realBytes h
  | label name address =>
    cases address with
    | none => cases h
    | some address =>
      cases h
      exact length_intBytes 2 address

namespace Instr

variable {rest : List Operand} {bytes : List UInt8} {i : Instr}

lemma argBytes_cons {a} : argBytes (a :: rest) = .ok bytes ↔
      ∃ first others, a.bytes = .ok first ∧ argBytes rest = .ok others ∧
        bytes = first ++ others := by
  cases ha : a.bytes with
  | error e => simp [argBytes, ha]
  | ok first =>
    cases hr : argBytes rest with
    | error e => simp [argBytes, ha, hr]
    | ok others => simp [argBytes, ha, hr, eq_comm]

lemma length_argBytes {args} (h : argBytes args = .ok bytes) : bytes.length = argsWidth args := by
  induction args generalizing bytes with
  | nil =>
    cases h
    rfl
  | cons a rest ih =>
    rcases argBytes_cons.1 h with ⟨first, others, hf, ho, rfl⟩
    simp [argsWidth, Operand.length_bytes hf, ih ho]

lemma bytes_eq_ok :
    i.bytes = .ok bytes ↔ ∃ args, argBytes i.args = .ok args ∧ bytes = i.op.code :: args := by
  cases h : argBytes i.args with
  | error e => simp [Instr.bytes, h]
  | ok args => simp [Instr.bytes, h, eq_comm]

/-! ## Bytes by kind of instruction -/

variable (place : String → Int)

lemma encoded_label (h : i.op = .label) : i.encoded place = [] := by
  simp [encoded, h]

lemma bytes_jump {op name} {value : Int} (hr : argBytes rest = .ok bytes) :
    Instr.bytes ⟨op, .label name (some value) :: rest⟩ =
      .ok (op.code :: (intBytes 2 value ++ bytes)) :=
  bytes_eq_ok.2 ⟨_, argBytes_cons.2 ⟨_, _, rfl, hr, rfl⟩, rfl⟩

lemma encoded_jump {name address} (hj : i.op.isJump) (ha : i.args = .label name address :: rest)
    (hr : argBytes rest = .ok bytes) :
    i.encoded place = i.op.code :: (intBytes 2 (place name) ++ bytes) := by
  have hl : i.op ≠ .label := by
    intro h
    simp [h, Opcode.isJump] at hj
  have hres : i.resolve place = ⟨i.op, .label name (some (place name)) :: rest⟩ := by
    simp [resolve, hj, ha]
  simp [encoded, hl, hres, bytes_jump hr]

lemma encoded_plain (hl : i.op ≠ .label) (hj : i.op.isJump = false)
    (hb : i.bytes = .ok bytes) : i.encoded place = bytes := by
  have hres : i.resolve place = i := by simp [resolve, hj]
  simp [encoded, hl, hres, hb]

lemma Fits.cases (h : i.Fits) :
    (i.op = .label ∧ ∃ name address rest, i.args = .label name address :: rest) ∨
    (i.op ≠ .label ∧ i.op.isJump ∧ ∃ name address rest bytes,
      i.args = .label name address :: rest ∧ argBytes rest = .ok bytes) ∨
    (i.op ≠ .label ∧ i.op.isJump = false ∧ ∃ bytes, i.bytes = .ok bytes) := by
  unfold Fits at h
  by_cases hl : i.op = .label
  · exact .inl ⟨hl, by rwa [if_pos hl] at h⟩
  · rw [if_neg hl] at h
    cases hj : i.op.isJump with
    | true => exact .inr (.inl ⟨hl, rfl, by rwa [if_pos hj] at h⟩)
    | false => exact .inr (.inr ⟨hl, rfl, by simpa [hj] using h⟩)

lemma Fits.length_encoded (h : i.Fits) (place : String → Int) :
    (i.encoded place).length = i.width := by
  obtain ⟨hl, -⟩ | ⟨hl, hj, name, address, rest, bytes, ha, hr⟩ | ⟨hl, hj, bytes, hb⟩ := h.cases
  · simp [encoded_label place hl, width, hl]
  · have hlen := length_argBytes hr
    simp [encoded_jump place hj ha hr, width, hl, ha, argsWidth, Operand.width, hlen]
    omega
  · rcases bytes_eq_ok.1 hb with ⟨args, hargs, rfl⟩
    have hlen := length_argBytes hargs
    simp [encoded_plain place hl hj hb, width, hl, hlen]
    omega

end Instr

lemma length_encodedCode (h : ∀ i ∈ is, i.Fits) (place : String → Int) :
    (encodedCode place is).length = width is := by
  induction is with
  | nil => rfl
  | cons i rest ih =>
    obtain ⟨hi, hrest⟩ := forall_mem_cons.1 h
    simp [hi.length_encoded place, ih hrest]

/-! ## Places of labels and of the jumps to them -/

/-- Where a list of instructions places a label, counted in bytes from its start. -/
def labelPlace (name : String) : List Instr → Option Nat
  | [] => none
  | i :: rest => if i.mark? = some name then some 0 else (labelPlace name rest).map (i.width + ·)

def marks (is : List Instr) : List String := is.filterMap mark?

def jumpSites (name : String) : Nat → List Instr → List Nat
  | _, [] => []
  | start, i :: rest =>
    (if i.target? = some name then [start + 1] else []) ++ jumpSites name (start + i.width) rest

variable (name : String)

lemma labelPlace_append (xs ys : List Instr) : labelPlace name (xs ++ ys) =
      (labelPlace name xs).or ((labelPlace name ys).map (width xs + ·)) := by
  induction xs with
  | nil => simp [labelPlace]
  | cons i rest ih =>
    by_cases hi : i.mark? = some name
    · simp [labelPlace, hi]
    · cases hr : labelPlace name rest <;>
        simp [labelPlace, hi, ih, hr, add_assoc, Function.comp_def]

lemma labelPlace_isSome (is : List Instr) :
    (labelPlace name is).isSome = true ↔ name ∈ marks is := by
  induction is with
  | nil => simp [labelPlace, marks]
  | cons i rest ih =>
    cases hm : i.mark? with
    | none => simpa [labelPlace, hm, marks] using ih
    | some other =>
      by_cases ho : other = name
      · simp [labelPlace, hm, marks, ho]
      · simpa [labelPlace, hm, marks, ho, Ne.symm ho] using ih

lemma labelPlace_eq_none_iff (is : List Instr) : labelPlace name is = none ↔ name ∉ marks is := by
  rw [← labelPlace_isSome]
  cases labelPlace name is <;> simp

lemma jumpSites_append (start : Nat) (xs ys : List Instr) :
    jumpSites name start (xs ++ ys) =
      jumpSites name start xs ++ jumpSites name (start + width xs) ys := by
  induction xs generalizing start with
  | nil => simp [jumpSites]
  | cons i rest ih => simp [jumpSites, ih, add_assoc]

@[simp] lemma marks_append (xs ys : List Instr) : marks (xs ++ ys) = marks xs ++ marks ys := by
  simp [marks]

/-! ## One label moves -/

def overwrite (value : Int) (bytes : List UInt8) (pos : Nat) : List UInt8 :=
  (bytes.set pos (value % 256).toNat.toUInt8).set (pos + 1) (value / 256 % 256).toNat.toUInt8

lemma intBytes_two (n : Int) :
    intBytes 2 n = [(n % 256).toNat.toUInt8, (n / 256 % 256).toNat.toUInt8] := rfl

lemma overwrite_address (old new : Int) (before behind : List UInt8) (op : UInt8) :
    overwrite new (before ++ op :: (intBytes 2 old ++ behind)) (before.length + 1) =
      before ++ op :: (intBytes 2 new ++ behind) := by
  have hbound : ¬ before.length + 1 + 1 < before.length := by omega
  have hsub : before.length + 1 + 1 - before.length = 2 := by omega
  simp [overwrite, intBytes_two, set_append, hbound, hsub]

def relabel (value : Int) : String → Int :=
  fun other => if other = name then value else place other

lemma Instr.encoded_relabel_of_ne {i : Instr} (h : i.Fits) (place : String → Int) {name}
    (value : Int) (ht : i.target? ≠ some name) :
    i.encoded (relabel place name value) = i.encoded place := by
  obtain ⟨hl, -⟩ | ⟨-, hj, other, address, rest, bytes, ha, hr⟩ | ⟨hl, hj, bytes, hb⟩ := h.cases
  · simp [encoded_label _ hl]
  · have hne : other ≠ name := by simpa [target?, hj, ha] using ht
    simp [encoded_jump _ hj ha hr, relabel, hne]
  · simp [encoded_plain _ hl hj hb]

lemma encodedCode_relabel (h : ∀ i ∈ is, i.Fits) (place : String → Int) (name : String)
    (value : Int) (before : List UInt8) :
    (jumpSites name before.length is).foldl (overwrite value) (before ++ encodedCode place is) =
      before ++ encodedCode (relabel place name value) is := by
  induction is generalizing before with
  | nil => simp [jumpSites]
  | cons i rest ih =>
    obtain ⟨hi, hrest⟩ := forall_mem_cons.1 h
    -- The bytes of `i` join the prefix before the rest is looked at.
    have hstep : ∀ start : List UInt8, start.length = before.length + i.width →
        (jumpSites name (before.length + i.width) rest).foldl (overwrite value)
            (start ++ encodedCode place rest) =
          start ++ encodedCode (relabel place name value) rest := by
      intro start hstart
      have := ih hrest start
      rwa [hstart] at this
    by_cases ht : i.target? = some name
    · obtain ⟨hl, -⟩ | ⟨-, hj, other, address, args, bytes, ha, hr⟩ | ⟨-, hj, -⟩ := hi.cases
      · simp [target?, hl, Opcode.isJump] at ht
      · have ho : other = name := by simpa [target?, hj, ha] using ht
        subst ho
        have hnew : (before ++ i.encoded (relabel place other value)).length =
            before.length + i.width := by
          simp [hi.length_encoded]
        have hfirst : overwrite value (before ++ (i.encoded place ++ encodedCode place rest))
            (before.length + 1) =
            (before ++ i.encoded (relabel place other value)) ++ encodedCode place rest := by
          simpa [encoded_jump _ hj ha hr, relabel, append_assoc] using
            overwrite_address (place other) value before (bytes ++ encodedCode place rest) i.op.code
        simp only [jumpSites, ht, if_true, cons_append, nil_append, foldl_cons, encodedCode_cons]
        rw [hfirst, hstep _ hnew, append_assoc]
      · simp [target?, hj] at ht
    · have hsame := encoded_relabel_of_ne hi place value ht
      have hold : (before ++ i.encoded place).length = before.length + i.width := by
        simp [hi.length_encoded]
      have := hstep _ hold
      simpa [jumpSites, ht, hsame, append_assoc] using this

end ArmStudio.Code
