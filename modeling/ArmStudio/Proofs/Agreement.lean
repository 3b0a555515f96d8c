import ArmStudio.Proofs.OperandRuns

/-!
# Machine and store agree

`Stands` relates a machine within a call to a store of the evaluator: the frame is on the stack,
the locals have their values in its slots, and the globals have theirs.
-/

namespace ArmStudio.Machine

open Code Script Table

/-- A call under way: where its frame is, how it keeps its variables and what it returns to. -/
structure Frame where
  base : Nat
  count : Nat
  cell : String → Cell
  back : UInt16
  outerFrame : UInt8
  outerLocals : UInt8

/-- The globals of the machine are those of the store. -/
structure HasGlobals (globals : List String) (values : Table Int32) (m : State) : Prop where
  names : values.names = globals
  values : m.globals.toList = values.entries.map fun e => e.2.toUInt32

/-- The machine is in a call, with a stack of height `h` and the values of a store. -/
structure Stands (globals : List String) (fr : Frame) (h : Nat) (s : Store) (m : State) : Prop where
  size : m.stack.size = stackSize + 1
  frame : m.frame.toNat = fr.base
  locals : m.locals.toNat = fr.count
  top : m.top.toNat = h
  room : fr.base + 3 + fr.count ≤ h
  back : m.stack[fr.base]? = some fr.back.toUInt32
  outerFrame : m.stack[fr.base + 1]? = some fr.outerFrame.toUInt32
  outerLocals : m.stack[fr.base + 2]? = some fr.outerLocals.toUInt32
  globals : HasGlobals globals s.globals m
  slots : ∀ x v, s.locals.find? x = some v →
    ∃ i, fr.cell x = .slot i ∧ m.stack[fr.base + 3 + i]? = some v.toUInt32

/-- Between two stores a value was put into the variable that a cell keeps. -/
def Assigns (globals : List String) (cell : String → Cell) (x : String) (v : Int32)
    (s s' : Store) : Prop :=
  (∃ i, cell x = .slot i ∧ s' = { s with locals := s.locals.insert x v }) ∨
    (x ∈ globals ∧ s' = { s with globals := s.globals.insert x v })

/-- Outside of the frame and under height `h` the stack is the same. -/
def Kept (fr : Frame) (h : Nat) (m m' : State) : Prop :=
  ∀ i, i < fr.base ∨ (fr.base + 3 + fr.count ≤ i ∧ i < h) → m'.stack[i]? = m.stack[i]?

namespace Kept

variable {fr : Frame} {h h' : Nat} {m m' m'' : State}

lemma refl (m : State) : Kept fr h m m := fun _ _ => rfl

lemma trans (hk : Kept fr h m m') (hk' : Kept fr h' m' m'') (hle : h ≤ h') : Kept fr h m m'' := by
  intro i hi
  rw [hk' i (by omega), hk i hi]

end Kept

namespace HasGlobals

variable {globals : List String} {values : Table Int32} {m : State}
  (h : HasGlobals globals values m)

include h

lemma read {x : String} {v : Int32} (hx : values.find? x = some v) :
    x ∈ globals ∧ m.globals[globals.idxOf x]? = some v.toUInt32 := by
  have hmem : x ∈ values.names := by
    rw [← contains_iff, contains, hx]
    rfl
  refine ⟨h.names ▸ hmem, ?_⟩
  have hentry := getElem?_entries hx
  rw [h.names] at hentry
  rw [← Array.getElem?_toList, h.values, List.getElem?_map, hentry]
  rfl

lemma size : m.globals.size = globals.length := by
  rw [← Array.length_toList, h.values, List.length_map, ← h.names]
  simp [Table.names]

lemma write {x : String} (hx : x ∈ globals) (v : Int32) :
    HasGlobals globals (values.insert x v) (m.assigned (globals.idxOf x) v.toUInt32) ∧
      globals.idxOf x < m.globals.size := by
  have hmem := h.names.symm ▸ hx
  refine ⟨⟨?_, ?_⟩, ?_⟩
  · rw [names_insert_of_mem values v hmem, h.names]
  · rw [entries_insert_of_mem values v hmem, h.names, List.map_set, ← h.values]
    simp [State.assigned]
  · rw [h.size]
    exact List.idxOf_lt_length_of_mem hx

end HasGlobals

namespace Stands

variable {globals : List String} {fr : Frame} {h : Nat} {s s' : Store} {m : State} {x : String}
  {v : Int32}

section

variable (hs : Stands globals fr h s m)

include hs

lemma goto (a : UInt16) : Stands globals fr h s (m.goto a) :=
  ⟨hs.size, hs.frame, hs.locals, hs.top, hs.room, hs.back, hs.outerFrame, hs.outerLocals,
    ⟨hs.globals.names, hs.globals.values⟩, hs.slots⟩

omit hs in
lemma popped (hs : Stands globals fr (h + 1) s m) (hroom : fr.base + 3 + fr.count ≤ h) :
    Stands globals fr h s m.popped := by
  exact ⟨hs.size, hs.frame, hs.locals, State.popped_top hs.top, hroom, hs.back, hs.outerFrame,
    hs.outerLocals, ⟨hs.globals.names, hs.globals.values⟩, hs.slots⟩

lemma within (hfew : globals.length ≤ 65536) : Within m.valueIn h m := by
  have hinside : m.frame.toNat + 3 + m.locals.toNat ≤ m.top.toNat := by
    rw [hs.frame, hs.locals, hs.top]
    exact hs.room
  have hcount : m.globals.size ≤ 65536 := by
    rwa [hs.globals.size]
  exact hs.top ▸ within_valueIn hs.size hinside hcount

variable (hl : Layout globals fr.count fr.cell)

include hl

lemma covers_slot {i : Nat} (hcell : fr.cell x = .slot i) : m.Covers (fr.cell x) := by
  rw [hcell]
  exact lt_of_lt_of_eq (hl.bound x i hcell) hs.locals.symm

lemma covers_global (hx : x ∈ globals) : m.Covers (fr.cell x) := by
  rw [hl.global x hx]
  exact lt_of_lt_of_eq (List.idxOf_lt_length_of_mem hx) hs.globals.size.symm

lemma read (hx : s.read x = some v) :
    m.Covers (fr.cell x) ∧ m.wordIn (fr.cell x) = some v.toUInt32 := by
  rw [Store.read, Option.or_eq_some_iff] at hx
  rcases hx with hlocal | ⟨_, hglob⟩
  · rcases hs.slots x v hlocal with ⟨i, hcell, hv⟩
    refine ⟨hs.covers_slot hl hcell, ?_⟩
    rwa [hcell, State.wordIn, hs.frame]
  · rcases hs.globals.read hglob with ⟨hmem, hv⟩
    refine ⟨hs.covers_global hl hmem, ?_⟩
    rwa [hl.global x hmem]

omit hl in
lemma assigns (hx : s.write x v = some s') : Assigns globals fr.cell x v s s' := by
  unfold Store.write at hx
  by_cases hlocal : s.locals.contains x = true
  · rw [if_pos hlocal] at hx
    rcases Option.isSome_iff_exists.1 hlocal with ⟨w, hw⟩
    rcases hs.slots x w hw with ⟨i, hcell, _⟩
    exact .inl ⟨i, hcell, by simpa using hx.symm⟩
  · rw [if_neg hlocal] at hx
    by_cases hglob : s.globals.contains x = true
    · rw [if_pos hglob] at hx
      rcases Option.isSome_iff_exists.1 hglob with ⟨w, hw⟩
      exact .inr ⟨(hs.globals.read hw).1, by simpa using hx.symm⟩
    · rw [if_neg hglob] at hx
      cases hx

lemma covers (hx : Assigns globals fr.cell x v s s') : m.Covers (fr.cell x) := by
  rcases hx with ⟨i, hcell, _⟩ | ⟨hmem, _⟩
  · exact hs.covers_slot hl hcell
  · exact hs.covers_global hl hmem

end

/-! ## Changed places -/

variable {values : Cell → Int32} {cells : List Cell} {h' k : Nat} {m' : State}
  (hs : Stands globals fr k s m)

include hs

lemma changed (hbound : fr.base + 3 + fr.count ≤ h) (hw : Within values h' m') (hle : h ≤ h')
    (hu : Unchanged cells h m m') (hcells : ∀ i, .slot i ∈ cells → i < fr.count)
    (hglobs : HasGlobals globals s'.globals m') (hslots : ∀ x v, s'.locals.find? x = some v →
      ∃ i, fr.cell x = .slot i ∧ m'.stack[fr.base + 3 + i]? = some v.toUInt32) :
    Stands globals fr h' s' m' ∧ Kept fr h m m' := by
  have hframe := hs.frame
  have hsame (i : Nat) (hi : i < h) (hout : i < fr.base + 3 ∨ fr.base + 3 + fr.count ≤ i) :
      m'.stack[i]? = m.stack[i]? :=
    hu.below i hi fun j hj hmem => by have := hcells j hmem; omega
  refine ⟨⟨hw.size, ?_, ?_, hw.top, by omega, ?_, ?_, ?_, hglobs, hslots⟩, fun i hi => ?_⟩
  · rw [hu.frame, hframe]
  · rw [hu.locals, hs.locals]
  · rw [hsame _ (by omega) (by omega), hs.back]
  · rw [hsame _ (by omega) (by omega), hs.outerFrame]
  · rw [hsame _ (by omega) (by omega), hs.outerLocals]
  · exact hsame i (by omega) (by omega)

variable (hl : Layout globals fr.count fr.cell)

include hl

lemma slot_kept (hbound : fr.base + 3 + fr.count ≤ h) (hu : Unchanged cells h m m')
    (hx : s.locals.find? x = some v) (hnot : fr.cell x ∉ cells) :
    ∃ i, fr.cell x = .slot i ∧ m'.stack[fr.base + 3 + i]? = some v.toUInt32 := by
  rcases hs.slots x v hx with ⟨i, hcell, hv⟩
  have hi := hl.bound x i hcell
  have hframe := hs.frame
  refine ⟨i, hcell, ?_⟩
  rw [hu.below _ (by omega) fun j hj hmem => ?_, hv]
  cases show j = i by omega
  exact hnot (hcell ▸ hmem)

lemma unchanged (hbound : fr.base + 3 + fr.count ≤ h) (hw : Within values h' m') (hle : h ≤ h')
    (hu : Unchanged [] h m m') : Stands globals fr h' s m' ∧ Kept fr h m m' := by
  have hsame := Array.ext_getElem? fun i => hu.globals i (by simp)
  exact hs.changed hbound hw hle hu (by simp) ⟨hs.globals.names, hsame ▸ hs.globals.values⟩
    fun x v hx => hs.slot_kept hl hbound hu hx (by simp)

lemma write (hbound : fr.base + 3 + fr.count ≤ h) (hx : Assigns globals fr.cell x v s s')
    (hw : Within (fun c => if c = fr.cell x then v else values c) h' m') (hle : h ≤ h')
    (hu : Unchanged [fr.cell x] h m m') (hcov : m'.Covers (fr.cell x)) :
    Stands globals fr h' s' m' ∧ Kept fr h m m' := by
  have hword := hw.values _ hcov
  rw [if_pos rfl] at hword
  have hcells (i : Nat) (hi : Cell.slot i ∈ [fr.cell x]) : i < fr.count :=
    hl.bound x i (List.mem_singleton.1 hi).symm
  rcases hx with ⟨i, hcell, rfl⟩ | ⟨hmem, rfl⟩
  · have hsame := Array.ext_getElem? fun i => hu.globals i (by simp [hcell])
    refine hs.changed hbound hw hle hu hcells ⟨hs.globals.names, hsame ▸ hs.globals.values⟩
      fun y w hy => ?_
    by_cases hxy : x = y
    · subst hxy
      rw [find?_insert_self] at hy
      cases hy
      refine ⟨i, hcell, ?_⟩
      rwa [hcell, State.wordIn, hu.frame, hs.frame] at hword
    · rw [find?_insert_of_ne _ _ hxy] at hy
      refine hs.slot_kept hl hbound hu hy fun hin => hxy ?_
      -- Another name is in another slot.
      exact hl.apart x y i hcell ((List.mem_singleton.1 hin).trans hcell)
  · have hcell := hl.global x hmem
    rw [hcell] at hword hu
    obtain ⟨hglobs, hlt⟩ := hs.globals.write hmem v
    have hsame : m'.globals = (m.assigned (globals.idxOf x) v.toUInt32).globals := by
      refine Array.ext_getElem? fun i => ?_
      by_cases hi : globals.idxOf x = i
      · subst hi
        exact hword.trans (Array.getElem?_setIfInBounds_self_of_lt hlt).symm
      · rw [hu.globals i (by simpa [eq_comm] using hi)]
        exact (Array.getElem?_setIfInBounds_ne hi).symm
    refine hs.changed hbound hw hle hu (by simp) ⟨hglobs.names, hsame ▸ hglobs.values⟩
      fun y w hy => hs.slot_kept hl hbound hu hy fun hin => ?_
    rcases hs.slots y w hy with ⟨i, hslot, _⟩
    simp [hslot] at hin

end Stands

end ArmStudio.Machine
