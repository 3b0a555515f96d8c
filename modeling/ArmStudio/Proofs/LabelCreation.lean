import ArmStudio.Proofs.Labels
import ArmStudio.Proofs.ParsedTrees

/-!
# Labels that the assembler creates

For every statement of every tree: which labels it creates, where its code places them and where its
jumps go.
-/

namespace ArmStudio.Script

mutual

def Expr.callees : Expr → List String
  | .literal _ | .hole | .blank | .typeName _ | .var .. => []
  | .unary _ e => e.callees
  | .binary _ a b => a.callees ++ b.callees
  | .call func _ args => func :: argsCallees args
  | .sysCall _ args => argsCallees args

def Expr.argsCallees : List Expr → List String
  | [] => []
  | a :: rest => a.callees ++ argsCallees rest

end

/-- An expression that calls only functions which satisfy `P`. -/
def Expr.Calls (P : String → Prop) (e : Expr) : Prop := ∀ func ∈ e.callees, P func

end ArmStudio.Script

namespace ArmStudio.Code

open Script List StmtCode Expr Labels

/-! ## Code of expressions -/

/-- Code of operations and of calls of functions that satisfy `P`. -/
def CallsOnly (P : String → Prop) (code : List Instr) : Prop :=
  ∀ i ∈ code, i.op.isStraight = true ∨ ∃ func n, i = ⟨.call, [.label func none, n]⟩ ∧ P func

namespace CallsOnly

variable {P Q : String → Prop} {xs ys : List Instr}

lemma nil : CallsOnly P [] := by
  intro i hi
  cases hi

lemma append (hx : CallsOnly P xs) (hy : CallsOnly P ys) : CallsOnly P (xs ++ ys) :=
  forall_mem_append.2 ⟨hx, hy⟩

lemma single {i : Instr} (h : i.op.isStraight) : CallsOnly P [i] := forall_mem_singleton.2 (.inl h)

lemma imp (hPQ : ∀ func, P func → Q func) (h : CallsOnly P xs) : CallsOnly Q xs := by
  intro i hi
  rcases h i hi with hstr | ⟨func, n, rfl, hfunc⟩
  · exact .inl hstr
  · exact .inr ⟨func, n, rfl, hPQ func hfunc⟩

lemma marks (h : CallsOnly P xs) : marks xs = [] := by
  rw [Code.marks, filterMap_eq_nil_iff]
  intro i hi
  rcases h i hi with hstr | ⟨func, n, rfl, _⟩
  · have hlabel : i.op ≠ .label := by
      intro heq
      simp [heq, Opcode.isStraight] at hstr
    simp [Instr.mark?, hlabel]
  · rfl

end CallsOnly

section

variable {P : String → Prop} {storage : Storage} {symbols : Symbols} {code : List Instr}
  {Q : Instr → Prop}

/-- What is asked of the code of a call node. -/
def CallIs (Q : Instr → Prop) : Expr → Prop
  | .call func _ args => Q ⟨.call, [.label func none, .u8 (.ofInt args.length)]⟩
  | _ => True

/-- What holds of straight operations, and of the calls in expressions, holds in all their code. -/
theorem ExprCoded.each (hQ : ∀ i : Instr, i.op.isStraight → Q i) {wanted : Bool}
    {es : List Expr} (h : ExprCoded storage symbols wanted es code)
    (hes : ∀ n ∈ nodesIn es, CallIs Q n) : ∀ i ∈ code, Q i := by
  have hcons : ∀ {i : Instr} {d : Int} {rest : List Instr}, i.Straight d →
      (∀ j ∈ rest, Q j) → ∀ j ∈ i :: rest, Q j :=
    fun hi hrest => forall_mem_cons.2 ⟨hQ _ hi.straight, hrest⟩
  have hdrop : ∀ w, ∀ i ∈ dropUnless w, Q i := by
    intro w
    cases w with
    | true => simp [dropUnless]
    | false => exact forall_mem_singleton.2 (hQ _ rfl)
  have htgt : ∀ {w left onOther tail}, assignCode storage symbols w left onOther = .ok tail →
      ∀ i ∈ tail, Q i := by
    intro w left onOther tail htail
    obtain ⟨_, _, store, more, _, hstore, rfl, ⟨_, rfl⟩ | ⟨_, load, hload, rfl⟩⟩ :=
      assignCode_eq_ok htail
    · exact hcons (straight_storeVar hstore) (by simp)
    · exact hcons (straight_storeVar hstore) (hcons (straight_loadVar hload) (by simp))
  induction h with
  | nil | blank | typeName | same _ => simp
  | literal => exact hcons (straight_literalCode _) (hdrop _)
  | hole => exact forall_mem_cons.2 ⟨hQ _ rfl, hdrop _⟩
  | var hload => exact hcons (straight_loadVar hload) (hdrop _)
  | cons _ _ iha ihrest =>
    simp only [nodesIn, append_nil, forall_mem_append] at hes iha ⊢
    exact ⟨iha hes.1, ihrest hes.2⟩
  | unary _ hlast ih =>
    simp only [nodesIn, nodes, append_nil, forall_mem_cons] at hes ih
    exact forall_mem_append.2 ⟨ih hes.2, hcons hlast.toStraight (hdrop _)⟩
  | assign _ htail ih =>
    simp only [nodesIn, nodes, append_nil, forall_mem_cons, forall_mem_append] at hes ih ⊢
    exact ⟨ih hes.2.2, htgt htail⟩
  | convert _ _ _ ih =>
    simp only [nodesIn, nodes, append_nil, forall_mem_cons, forall_mem_append] at hes ih
    unfold conversionCode
    split
    case h_3 => exact ih hes.2.1
    all_goals exact forall_mem_append.2 ⟨ih hes.2.1, forall_mem_singleton.2 (hQ _ rfl)⟩
  | operator _ _ _ _ _ hlast iha ihb =>
    simp only [nodesIn, nodes, append_nil, forall_mem_cons, forall_mem_append] at hes iha ihb
    simp only [forall_mem_append]
    exact ⟨⟨iha hes.2.1, ihb hes.2.2⟩, hcons hlast.toStraight (hdrop _)⟩
  | update _ _ _ _ _ hlast htail iha ihb =>
    simp only [nodesIn, nodes, append_nil, forall_mem_cons, forall_mem_append] at hes iha ihb
    simp only [forall_mem_append]
    exact ⟨⟨iha hes.2.1, ihb hes.2.2⟩, hcons hlast.toStraight (htgt htail)⟩
  | call _ ih =>
    simp only [nodesIn, nodes, append_nil, forall_mem_cons] at hes
    exact forall_mem_append.2 ⟨ih hes.2, forall_mem_cons.2 ⟨hes.1, hdrop _⟩⟩
  | read _ hop ih =>
    simp only [nodesIn, nodes, append_nil, forall_mem_cons] at hes
    exact forall_mem_append.2 ⟨ih hes.2, hcons (computes_callCode hop).toStraight (hdrop _)⟩
  | sysCall _ _ hop ih =>
    simp only [nodesIn, nodes, append_nil, forall_mem_cons] at hes
    exact forall_mem_append.2
      ⟨ih hes.2, hcons (computes_callCode hop).toStraight (by simp)⟩

lemma callIs_callees (e : Expr) (h : ∀ func ∈ e.callees, ∀ n, Q ⟨.call, [.label func none, n]⟩) :
    ∀ n ∈ e.nodes, CallIs Q n := by
  have hargs : ∀ args : List Expr,
      (∀ a ∈ args, (∀ func ∈ a.callees, ∀ n, Q ⟨.call, [.label func none, n]⟩) →
        ∀ n ∈ a.nodes, CallIs Q n) →
      (∀ func ∈ argsCallees args, ∀ n, Q ⟨.call, [.label func none, n]⟩) →
      ∀ n ∈ nodesIn args, CallIs Q n := by
    intro args ih hcallees
    induction args with
    | nil => simp [nodesIn]
    | cons a rest ihrest =>
      simp only [argsCallees, nodesIn, forall_mem_append, forall_mem_cons]
        at ih hcallees ⊢
      exact ⟨ih.1 hcallees.1, ihrest ih.2 hcallees.2⟩
  induction e with
  | unary op a ih => exact forall_mem_cons.2 ⟨trivial, ih h⟩
  | binary op a b iha ihb =>
    simp only [callees, forall_mem_append] at h
    exact forall_mem_cons.2
      ⟨trivial, forall_mem_append.2 ⟨iha h.1, ihb h.2⟩⟩
  | call func symbol args ih =>
    simp only [callees, forall_mem_cons] at h
    exact forall_mem_cons.2 ⟨h.1 _, hargs args ih h.2⟩
  | sysCall func args ih => exact forall_mem_cons.2 ⟨trivial, hargs args ih h⟩
  | _ => exact forall_mem_singleton.2 trivial

lemma exprCode_callsOnly (e : Expr) (wanted : Bool) (code : List Instr)
    (h : exprCode storage symbols wanted e = .ok code) : CallsOnly (· ∈ e.callees) code :=
  (exprCoded e h).each (fun _ hi => .inl hi) (by
    rw [nodesIn, nodesIn, append_nil]
    exact callIs_callees e fun func hfunc n => .inr ⟨func, n, rfl, hfunc⟩)

end

/-! ## Created labels -/

lemma Labels.counter_foldl_create (names : List String) (l : Labels) :
    (names.foldl create l).counter = l.counter + names.length := by
  induction names generalizing l with
  | nil => rfl
  | cons name rest ih =>
    rw [foldl_cons, ih, length_cons]
    simp only [create]
    omega

/-- Between `before` and `after` labels are created, in this order and each for the first time:
those of functions, and others that are numbered by the counter. They are the labels that `code`
places, each of them once. -/
structure Creates (functions : List String) (before after : Labels) (names : List String)
    (code : List Instr) : Prop where
  labels : after = names.foldl create before
  placed : names.Perm (marks code)
  listed : ∀ f ∈ functions, f ∈ names
  named : ∀ name ∈ names, name ∈ functions ∨
    ∃ k, labelNumber? name = some k ∧ before.counter ≤ k ∧ k < after.counter
  nodup : names.Nodup

namespace Creates

variable {functions fs gs xs ys : List String} {l l1 l2 : Labels} {code as bs : List Instr}

lemma counter (h : Creates functions l l1 xs code) : l1.counter = l.counter + xs.length := by
  rw [h.labels, counter_foldl_create]

lemma unmarked (l : Labels) (h : marks code = []) : Creates [] l l [] code :=
  ⟨rfl, by rw [h], by simp, by simp, .nil⟩

lemma label (s : GenState) (word : String)
    (h : word.toList.head?.any Char.isDigit = false) :
    Creates [] s.labels (s.label word).2.labels [(s.label word).1]
      [labelInstr (s.label word).1] := by
  refine ⟨rfl, .refl _, by simp, ?_, by simp⟩
  intro name hname
  rw [mem_singleton] at hname
  exact .inr ⟨s.labels.counter, hname ▸ labelNumber?_append s.labels.counter h, le_rfl,
    Nat.lt_succ_self _⟩

lemma function (l : Labels) (name : String) :
    Creates [name] l (l.create name) [name] [labelInstr name] :=
  ⟨rfl, .refl _, fun _ hf => hf, fun _ hx => .inl hx, by simp⟩

/-- Code that is made one part after the other. Labels of the parts differ in their numbers, or are
those of different functions. -/
lemma append (hx : Creates fs l l1 xs as) (hy : Creates gs l1 l2 ys bs)
    (hfunctions : ∀ f ∈ fs ++ gs, labelNumber? f = none) (hdisj : fs.Disjoint gs) :
    Creates (fs ++ gs) l l2 (xs ++ ys) (as ++ bs) := by
  have hcx := hx.counter
  have hcy := hy.counter
  refine ⟨?_, ?_, ?_, ?_, ?_⟩
  · rw [foldl_append, ← hx.labels, hy.labels]
  · rw [marks_append]
    exact hx.placed.append hy.placed
  · intro f hf
    rcases mem_append.1 hf with hf | hf
    · exact mem_append_left _ (hx.listed f hf)
    · exact mem_append_right _ (hy.listed f hf)
  · intro name hname
    rcases mem_append.1 hname with hname | hname
    · rcases hx.named name hname with hf | ⟨k, hk, hlow, hhigh⟩
      · exact .inl (mem_append_left _ hf)
      · exact .inr ⟨k, hk, hlow, by omega⟩
    · rcases hy.named name hname with hg | ⟨k, hk, hlow, hhigh⟩
      · exact .inl (mem_append_right _ hg)
      · exact .inr ⟨k, hk, by omega, hhigh⟩
  · rw [nodup_append]
    refine ⟨hx.nodup, hy.nodup, ?_⟩
    -- a name that both parts create would be of two functions, of a function and a number, or of a
    -- number below and not below the counter between the parts
    rintro name hname other hother rfl
    rcases hx.named name hname with hf | ⟨j, hj, _, hhigh⟩
    · rcases hy.named name hother with hg | ⟨k, hk, _, _⟩
      · exact hdisj hf hg
      · rw [hfunctions name (mem_append_left _ hf)] at hk
        cases hk
    · rcases hy.named name hother with hg | ⟨k, hk, hlow, _⟩
      · rw [hfunctions name (mem_append_right _ hg)] at hj
        cases hj
      · rw [hj, Option.some.injEq] at hk
        omega

lemma numbered_append (hx : Creates [] l l1 xs as) (hy : Creates [] l1 l2 ys bs) :
    Creates [] l l2 (xs ++ ys) (as ++ bs) :=
  hx.append hy (by simp) (by simp)

lemma perm (h : Creates functions l l1 xs as) (hperm : (marks as).Perm (marks bs)) :
    Creates functions l l1 xs bs :=
  ⟨h.labels, h.placed.trans hperm, h.listed, h.named, h.nodup⟩

lemma linkable (h : Creates functions .empty l xs code) : (∀ name, l.place name = unplaced) ∧
      (∀ name ∈ marks code, l.places.contains name = true) ∧ (marks code).Nodup := by
  refine ⟨?_, fun name hname => ?_, h.placed.nodup h.nodup⟩
  · rw [h.labels]
    exact place_foldl_create xs fun _ => rfl
  · rw [h.labels]
    exact contains_foldl_create (h.placed.mem_iff.2 hname) _

end Creates

/-! ## Labels of statements -/

section

variable {func : String}

/-- The labels that statements create are numbered, and their code places each of them once. -/
theorem Coded.creates {exit?} {index : Nat} {s s'} {body}
    {r} (h : Coded func exit? index s body r s') :
    ∃ names, Creates [] s.labels s'.labels names r.code := by
  induction h with
  | cons _ _ ihfirst ihrest =>
    obtain ⟨xs, hxs⟩ := ihfirst
    obtain ⟨ys, hys⟩ := ihrest
    exact ⟨xs ++ ys, hxs.numbered_append hys⟩
  | expr hcode => exact ⟨[], .unmarked _ (exprCode_callsOnly _ false _ hcode).marks⟩
  | ret hcode | initialise _ _ _ hcode =>
    refine ⟨[], .unmarked _ ?_⟩
    rw [code_ofCode, marks_append, (exprCode_callsOnly _ true _ hcode).marks]
    rfl
  | constant _ hdecl =>
    obtain ⟨_, _, rfl⟩ := constantDecl_eq_ok.1 hdecl
    exact ⟨[], .unmarked _ rfl⟩
  | @ifElse _ _ s _ _ _ _ _ test _ _ htest _ _ ihyes ihno =>
    obtain ⟨xs, hxs⟩ := ihyes
    obtain ⟨ys, hys⟩ := ihno
    have hother := Creates.label s "_if_else" (by decide)
    have hfinal := Creates.label (s.label "_if_else").2 "_if_end" (by decide)
    -- both labels are created first and placed behind the branches
    refine ⟨_, (((hother.numbered_append hfinal).numbered_append hxs).numbered_append hys).perm ?_⟩
    have hmarks := (exprCode_callsOnly _ true test htest).marks
    rw [perm_iff_count]
    intro name
    simp only [code_append, code_ofCode, marks_append, marks_label, marks_jmp,
      marks_jz, marks_nil, hmarks, count_append, count_cons, count_nil]
    omega
  | @whileDo _ _ s _ _ _ test _ htest _ ih =>
    obtain ⟨xs, hxs⟩ := ih
    have hfinal := Creates.label s "_while_end" (by decide)
    have hfirst := Creates.label (s.label "_while_end").2 "_while_begin" (by decide)
    -- the label behind the loop is created first and placed last
    refine ⟨_, ((hfinal.numbered_append hfirst).numbered_append hxs).perm ?_⟩
    have hmarks := (exprCode_callsOnly _ true test htest).marks
    rw [perm_iff_count]
    intro name
    simp only [code_append, code_ofCode, cons_append, marks_append,
      marks_label, marks_jmp, marks_jz, marks_nil, hmarks, count_append, count_cons,
      count_nil]
    omega
  | @loop _ _ s _ _ _ _ ih =>
    obtain ⟨xs, hxs⟩ := ih
    have hfirst := Creates.label s "_loop_begin" (by decide)
    have hfinal := Creates.label (s.label "_loop_begin").2 "_loop_end" (by decide)
    refine ⟨_, ((hfirst.numbered_append hfinal).numbered_append hxs).perm ?_⟩
    rw [perm_iff_count]
    intro name
    simp only [code_append, code_ofCode, marks_append, marks_label, marks_jmp,
      marks_nil, count_append, count_cons, count_nil]
    omega
  | _ => exact ⟨[], .unmarked _ rfl⟩

end

/-! ## Jumps of statements -/

/-- Every jump of the code names where it goes: to one of the labels, or as a call to a function
that satisfies `P`. -/
def JumpsIn (P : String → Prop) (labels : List String) (code : List Instr) : Prop :=
  ∀ i ∈ code, i.op.isJump = true →
    ∃ name, i.target? = some name ∧ if i.op = .call then P name else name ∈ labels

namespace JumpsIn

variable {P Q : String → Prop} {labels more : List String} {xs ys : List Instr}

lemma append (hx : JumpsIn P labels xs) (hy : JumpsIn P labels ys) : JumpsIn P labels (xs ++ ys) :=
  forall_mem_append.2 ⟨hx, hy⟩

lemma mono (h : JumpsIn P labels xs) (hmore : ∀ name ∈ labels, name ∈ more) :
    JumpsIn P more xs := by
  intro i hi hjump
  obtain ⟨name, htgt, hname⟩ := h i hi hjump
  refine ⟨name, htgt, ?_⟩
  split at hname
  · rwa [if_pos ‹_›]
  · rw [if_neg ‹_›]
    exact hmore name hname

lemma of_callsOnly (h : CallsOnly P xs) : JumpsIn P labels xs := by
  intro i hi hjump
  rcases h i hi with hstr | ⟨func, n, rfl, hfunc⟩
  · cases hop : i.op <;> simp [hop, Opcode.isStraight, Opcode.isJump] at hstr hjump
  · exact ⟨func, rfl, hfunc⟩

lemma plain {i : Instr} (h : i.op.isJump = false) : JumpsIn P labels [i] := by
  intro i' hi' hjump
  rw [mem_singleton.1 hi', h] at hjump
  cases hjump

end JumpsIn

/-- What an instruction in the code of statements is there for: it is in the code of an expression
with `P`, or it stands around such code. Jumps go to one of the labels. -/
inductive Origin (P : Expr → Prop) (labels : List String) : Instr → Prop
  | expr {e s wanted code i} (he : P e) (hcode : GenState.exprCode s wanted e = .ok code)
      (hi : i ∈ code) : Origin P labels i
  | jump {op name} (hop : op = .jmp ∨ op = .jz) (hname : name ∈ labels) :
      Origin P labels (jumpInstr op name)
  | label (name : String) : Origin P labels (labelInstr name)
  | store (slot : Int) : Origin P labels ⟨.storl, [.u8 (.ofInt slot)]⟩
  | ret {op} (hop : op = .ret ∨ op = .ret0) : Origin P labels (.plain op)

lemma Origin.mono {P labels more} {i : Instr}
    (h : Origin P labels i) (hmore : ∀ name ∈ labels, name ∈ more) : Origin P more i := by
  cases h with
  | expr he hcode hi => exact .expr he hcode hi
  | jump hop hname => exact .jump hop (hmore _ hname)
  | label name => exact .label name
  | store slot => exact .store slot
  | ret hop => exact .ret hop

section

variable {func : String} {exit? : Option String} {index : Nat} {s s' : GenState} {body : List Stmt}
  {r : StmtCode}

/-- The code of statements is code of their expressions, with jumps around it that go to labels of
their own code or behind the loop around them. -/
theorem Coded.origin {P} (h : Coded func exit? index s body r s')
    (hbody : ∀ st ∈ body, st.Each P) : ∀ i ∈ r.code, Origin P (marks r.code ++ exit?.toList) i := by
  have hexpr {e : Expr} {s : GenState} {wanted : Bool} {code : List Instr} (labels : List String)
      (he : P e) (hcode : s.exprCode wanted e = .ok code) : ∀ i ∈ code, Origin P labels i :=
    fun _ hi => .expr he hcode hi
  induction h with
  | cons _ _ ihfirst ihrest =>
    obtain ⟨hst, hrest⟩ := forall_mem_cons.1 hbody
    simp only [code_append, forall_mem_append]
    constructor
    · intro i hi
      exact (ihfirst (by simpa using hst) i hi).mono (by simp +contextual [marks_append, or_imp])
    · intro i hi
      exact (ihrest hrest i hi).mono (by simp +contextual [marks_append])
  | nil | constant _ _ | declare _ _ _ => exact fun i hi => absurd hi not_mem_nil
  | expr hcode =>
    cases hbody _ (mem_singleton_self _) with
    | expr he => exact hexpr _ he hcode
  | initialise _ _ hinit hcode =>
    cases hbody _ (mem_singleton_self _) with
    | decl hd =>
      exact forall_mem_append.2 ⟨hexpr _ (hd _ hinit) hcode, forall_mem_singleton.2 (.store _)⟩
  | ret hcode =>
    cases hbody _ (mem_singleton_self _) with
    | ret hval =>
      exact forall_mem_append.2 ⟨hexpr _ (hval _ rfl) hcode,
        forall_mem_singleton.2 (.ret (.inl rfl))⟩
  | ret0 => exact forall_mem_singleton.2 (.ret (.inr rfl))
  | leaveLoop => exact forall_mem_singleton.2 (.jump (.inl rfl) (by simp))
  | ifElse htest _ _ ihyes ihno =>
    cases hbody _ (mem_singleton_self _) with
    | ifElse hcond hyes hno =>
      simp only [code_append, code_ofCode, forall_mem_append,
        mem_cons, not_mem_nil, or_false, forall_eq_or_imp, forall_eq]
      -- a branch knows no loop around it, so its jumps stay in it
      exact ⟨⟨⟨⟨⟨hexpr _ hcond htest, .jump (.inr rfl) (by simp [marks_append])⟩,
        fun i hi => (ihyes hyes i hi).mono (by simp +contextual [marks_append])⟩,
        .jump (.inl rfl) (by simp [marks_append]), .label _⟩,
        fun i hi => (ihno hno i hi).mono (by simp +contextual [marks_append])⟩, .label _⟩
  | whileDo htest _ ih =>
    cases hbody _ (mem_singleton_self _) with
    | whileDo hcond hinner =>
      simp only [code_append, code_ofCode, forall_mem_append,
        mem_cons, not_mem_nil, or_false, forall_eq_or_imp, forall_eq]
      exact ⟨⟨⟨⟨.label _, hexpr _ hcond htest⟩, .jump (.inr rfl) (by simp [marks_append])⟩,
        fun i hi => (ih hinner i hi).mono (by simp +contextual [marks_append, or_imp])⟩,
        .jump (.inl rfl) (by simp [marks_append]), .label _⟩
  | loop _ ih =>
    cases hbody _ (mem_singleton_self _) with
    | loop hinner =>
      simp only [code_append, code_ofCode, forall_mem_append,
        mem_cons, not_mem_nil, or_false, forall_eq_or_imp, forall_eq]
      exact ⟨⟨.label _, fun i hi => (ih hinner i hi).mono
        (by simp +contextual [marks_append, or_imp])⟩,
        .jump (.inl rfl) (by simp [marks_append]), .label _⟩

lemma Coded.jumpsIn {P} (h : Coded func exit? index s body r s')
    (hcalls : ∀ st ∈ body, st.Each (Calls P)) :
    JumpsIn P (marks r.code ++ exit?.toList) r.code := by
  intro i hi hjump
  cases h.origin hcalls i hi with
  | expr he hcode hi =>
    exact JumpsIn.of_callsOnly ((exprCode_callsOnly _ _ _ hcode).imp he) i hi hjump
  | jump hop hname => rcases hop with rfl | rfl <;> exact ⟨_, rfl, hname⟩
  | label | store => cases hjump
  | ret hop => rcases hop with rfl | rfl <;> cases hjump

end

end ArmStudio.Code
