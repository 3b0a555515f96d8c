import ArmStudio.Proofs.CheckedTrees
import ArmStudio.Proofs.LabelCreation
import ArmStudio.Proofs.TokenNames

/-!
# Labels of programs

Labels of statements are numbered by a counter that all functions share, and functions are labels by
their names. Names do not start with a digit and functions have different names, so no label is
created twice.
-/

namespace ArmStudio.Script

open List

lemma functionNames_sublist (ds : List Decl) :
    (functionNames ds).Sublist (ds.flatMap Decl.globalNames) := by
  induction ds with
  | nil => exact .slnil
  | cons d rest ih =>
    cases d with
    | var d => exact ih.cons d.name
    | func f =>
      rw [functionNames_func, flatMap_cons, Decl.globalNames, cons_append]
      exact (ih.trans (sublist_append_right _ _)).cons_cons f.name

variable {symbols : Symbols}

lemma functionNames_check (p : Program) :
    functionNames (p.check symbols).tree.decls = functionNames p.decls := by
  simp only [functionNames, filterMap_eq_flatMap_toList]
  exact p.flatMap_check (fun d => rfl) fun f => rfl

/-- A function that the program declares. -/
def Symbols.IsFunction (symbols : Symbols) (name : String) : Prop :=
  ∃ params result, symbols.outer.find? name = some (.ofFunction params result)

lemma Expr.Settled.calls {e : Expr} (h : e.Settled symbols) :
    e.Calls (Symbols.IsFunction symbols) := by
  have hargs : ∀ args : List Expr, (∀ a ∈ args, a.Calls (Symbols.IsFunction symbols)) →
      ∀ func ∈ Expr.argsCallees args, Symbols.IsFunction symbols func := by
    intro args hall
    induction args with
    | nil =>
      intro func hfunc
      cases hfunc
    | cons a rest ih =>
      obtain ⟨ha, hrest⟩ := forall_mem_cons.1 hall
      exact forall_mem_append.2 ⟨ha, ih hrest⟩
  induction h with
  | literal | var =>
    intro func hfunc
    cases hfunc
  | unary _ _ ih => exact ih
  | convert t _ _ ih =>
    intro func hfunc
    simp only [Expr.convert, Expr.callees, append_nil] at hfunc
    exact ih func hfunc
  | binary _ _ _ _ _ _ _ iha ihb => exact forall_mem_append.2 ⟨iha, ihb⟩
  | call hfunc _ ih => exact forall_mem_cons.2 ⟨⟨_, _, hfunc⟩, hargs _ ih⟩
  | sysCall _ _ ih => exact hargs _ ih

lemma Decl.Each.imp {Q R} (hQR : ∀ e, Q e → R e) {d : Decl} (h : d.Each Q) : d.Each R := by
  cases d with
  | var d => exact fun e he => hQR e (h e he)
  | func f => exact fun st hst => Stmt.Each.imp hQR (h st hst)

lemma Program.isFunction_main {p : Program} (hsound : Sound symbols)
    (h : (p.check symbols).outcome = .ok ()) : Symbols.IsFunction symbols "main" := by
  have hmain : mainError? symbols = none := by
    unfold Program.check at h
    split at h
    · cases h
    · assumption
  unfold mainError? at hmain
  split at hmain
  · cases hmain
  · rename_i symbol hfind
    split at hmain
    · rename_i hkind
      rcases hsound.outer _ _ hfind with ⟨t, isConst, rfl⟩ | ⟨params, result, rfl⟩
      · simp [Symbol.ofVar] at hkind
      · exact ⟨params, result, hfind⟩
    · cases hmain

end ArmStudio.Script

namespace ArmStudio.Code

open Script List

variable {P : String → Prop}

/-! ## Labels of functions -/

lemma marks_closeFunction (result : VarType) (code : List Instr) :
    marks (closeFunction result code) = marks code := by
  unfold closeFunction
  split
  · rw [marks_append]
    exact append_nil _
  · rfl

lemma jumpsIn_closeFunction {labels code} (result : VarType)
    (h : JumpsIn P labels code) : JumpsIn P labels (closeFunction result code) := by
  unfold closeFunction
  split
  · exact h.append (.plain rfl)
  · exact h

variable {f : FuncDecl} {index : Nat} {s s' : GenState} {r : StmtCode} {a a' : Assembly}

lemma creates_funcCode (hname : labelNumber? f.name = none) (h : funcCode f index s = .ok (r, s')) :
    ∃ names, Creates [f.name] s.labels s'.labels names r.code := by
  obtain ⟨body, s1, hbody, rfl, rfl⟩ := funcCode_eq_ok h
  obtain ⟨names, hnames⟩ := (coded_stmtsCode hbody).creates
  have hlabel := Creates.function s.labels f.name
  have hall := hlabel.append hnames (by simpa using hname) (by simp)
  refine ⟨_, hall.perm ?_⟩
  rw [marks_closeFunction]
  exact .refl _

lemma jumpsIn_funcCode (hf : ∀ st ∈ f.body, st.Each (Expr.Calls P))
    (h : funcCode f index s = .ok (r, s')) : JumpsIn P (marks r.code) r.code := by
  obtain ⟨body, s1, hbody, rfl, rfl⟩ := funcCode_eq_ok h
  have hjumps := (coded_stmtsCode hbody).jumpsIn hf
  have hhead : JumpsIn P (f.name :: marks body.code)
      [labelInstr f.name, ⟨.enter, [.u8 (.ofInt f.localCount)]⟩] :=
    (JumpsIn.plain rfl).append (.plain rfl)
  rw [marks_closeFunction]
  -- there is no loop around the body, so no jump leads out of it
  refine jumpsIn_closeFunction f.returnType (hhead.append (hjumps.mono ?_))
  intro name hname
  simp only [Option.toList_none, append_nil] at hname
  exact mem_cons_of_mem _ hname

/-! ## Labels of programs -/

/-- What declarations add to a program: start-up code that only computes and calls, and code whose
labels are created with it and whose jumps stay in it. -/
structure DeclsAdd (P : String → Prop) (ds : List Decl) (before after : Labels)
    (names : List String) (start code : List Instr) : Prop where
  creates : Creates (functionNames ds) before after names code
  unmarked : marks start = []
  calls : (∀ d ∈ ds, d.Each (Expr.Calls P)) → CallsOnly P start ∧ JumpsIn P (marks code) code

variable (P : String → Prop)

lemma declCode_adds {d : Decl}
    (hname : ∀ f ∈ functionNames [d], labelNumber? f = none) (h : declCode a s d = .ok (a', s')) :
    ∃ names start code, a'.startUp = a.startUp ++ start ∧ a'.code = a.code ++ code ∧
      DeclsAdd P [d] s.labels s'.labels names start code := by
  cases d with
  | func f =>
    obtain ⟨r, hr, rfl⟩ := declCode_func h
    obtain ⟨names, hnames⟩ := creates_funcCode (hname f.name (by simp)) hr
    exact ⟨names, [], r.code, (append_nil _).symm, rfl, hnames, rfl,
      fun hd => ⟨.nil, jumpsIn_funcCode (hd (.func f) (by simp)) hr⟩⟩
  | var d =>
    cases hconst : d.isConst with
    | true =>
      obtain ⟨v, hv, rfl⟩ := declCode_const hconst h
      obtain ⟨_, _, rfl⟩ := constantDecl_eq_ok.1 hv
      exact ⟨[], [], [], (append_nil _).symm, (append_nil _).symm, .unmarked _ rfl,
        rfl, fun _ => ⟨.nil, .of_callsOnly .nil⟩⟩
    | false =>
      obtain ⟨start, hcode, rfl⟩ := declCode_global hconst h
      obtain ⟨_, rfl, hinit⟩ := globalCode_eq_ok.1 hcode
      have hstart : CallsOnly (∃ e ∈ d.init, · ∈ e.callees) start := by
        rcases hinit with ⟨_, rfl⟩ | ⟨e, inner, he, hinner, rfl⟩
        · exact .nil
        · exact ((exprCode_callsOnly e true inner hinner).imp fun func hfunc =>
            ⟨e, he, hfunc⟩).append (.single rfl)
      refine ⟨[], start, [], rfl, (append_nil _).symm, .unmarked _ rfl, hstart.marks,
        fun hd => ⟨hstart.imp ?_, .of_callsOnly .nil⟩⟩
      rintro func ⟨e, he, hfunc⟩
      exact hd (.var d) (by simp) e he func hfunc

lemma declsCode_adds (ds : List Decl) {a a' s s'}
    (hnames : ∀ f ∈ functionNames ds, labelNumber? f = none) (hnodup : (functionNames ds).Nodup)
    (h : declsCode a s ds = .ok (a', s')) :
    ∃ names start code, a'.startUp = a.startUp ++ start ∧ a'.code = a.code ++ code ∧
      DeclsAdd P ds s.labels s'.labels names start code := by
  induction ds generalizing a s with
  | nil =>
    cases h
    exact ⟨[], [], [], (append_nil _).symm, (append_nil _).symm, .unmarked _ rfl, rfl,
      fun _ => ⟨.nil, .of_callsOnly .nil⟩⟩
  | cons d rest ih =>
    have hsplit : functionNames (d :: rest) = functionNames [d] ++ functionNames rest := by
      cases d <;> rfl
    rw [hsplit] at hnames hnodup
    obtain ⟨hname, hothers⟩ := forall_mem_append.1 hnames
    obtain ⟨_, hnodupRest, hdisj⟩ := nodup_append.1 hnodup
    obtain ⟨a1, s1, hfirst, hmore⟩ := declsCode_cons.1 h
    obtain ⟨xs, start, code, hstart, hcode, hadd⟩ := declCode_adds P hname hfirst
    obtain ⟨ys, start', code', hstart', hcode', hadd'⟩ := ih hothers hnodupRest hmore
    refine ⟨xs ++ ys, start ++ start', code ++ code', ?_, ?_, ?_, ?_, fun hds => ?_⟩
    · rw [hstart', hstart, append_assoc]
    · rw [hcode', hcode, append_assoc]
    · rw [hsplit]
      refine hadd.creates.append hadd'.creates hnames ?_
      intro name hx hy
      exact hdisj name hx name hy rfl
    · rw [marks_append, hadd.unmarked, hadd'.unmarked]
      rfl
    · obtain ⟨hd, hrest⟩ := forall_mem_cons.1 hds
      obtain ⟨hcalls, hjumps⟩ := hadd.calls (forall_mem_singleton.2 hd)
      obtain ⟨hcalls', hjumps'⟩ := hadd'.calls hrest
      refine ⟨hcalls.append hcalls', ?_⟩
      rw [marks_append]
      exact (hjumps.mono fun name hname => mem_append_left _ hname).append
        (hjumps'.mono fun name hname => mem_append_right _ hname)

/-! ## The code of a function in its program -/

lemma declsCode_append {xs ys} : declsCode a s (xs ++ ys) = .ok (a', s') ↔
      ∃ a1 s1, declsCode a s xs = .ok (a1, s1) ∧ declsCode a1 s1 ys = .ok (a', s') := by
  induction xs generalizing a s with
  | nil => simp [declsCode]
  | cons d rest ih =>
    rw [cons_append, declsCode_cons]
    constructor
    · rintro ⟨a1, s1, hd, hrest⟩
      obtain ⟨a2, s2, hxs, hys⟩ := ih.1 hrest
      exact ⟨a2, s2, declsCode_cons.2 ⟨a1, s1, hd, hxs⟩, hys⟩
    · rintro ⟨a2, s2, hxs, hys⟩
      obtain ⟨a1, s1, hd, hrest⟩ := declsCode_cons.1 hxs
      exact ⟨a1, s1, hd, ih.2 ⟨a2, s2, hrest, hys⟩⟩

lemma declsCode_code {ds} (h : declsCode a s ds = .ok (a', s')) :
    ∃ code, a'.code = a.code ++ code := by
  induction ds generalizing a s with
  | nil =>
    cases h
    exact ⟨[], (append_nil _).symm⟩
  | cons d rest ih =>
    obtain ⟨a1, s1, hfirst, hmore⟩ := declsCode_cons.1 h
    obtain ⟨code, hcode⟩ := ih hmore
    cases d with
    | func f =>
      obtain ⟨r, _, rfl⟩ := declCode_func hfirst
      exact ⟨r.code ++ code, by rw [hcode, append_assoc]⟩
    | var d =>
      cases hconst : d.isConst with
      | true =>
        obtain ⟨v, _, rfl⟩ := declCode_const hconst hfirst
        exact ⟨code, hcode⟩
      | false =>
        obtain ⟨start, _, rfl⟩ := declCode_global hconst hfirst
        exact ⟨code, hcode⟩

/-- In the program `a`, `r` is what the assembler makes of the function `f` behind the declarations
`front`, and its code stands behind theirs. -/
def IsCodeOf (symbols : Symbols) (a : Assembly) (front : List Decl) (f : FuncDecl)
    (r : StmtCode) : Prop :=
  ∃ a1 s1 s2 rest, declsCode .empty (.start symbols) front = .ok (a1, s1) ∧
    funcCode f a1.constants.length s1 = .ok (r, s2) ∧ a.code = a1.code ++ r.code ++ rest

lemma exists_isCodeOf {symbols p} (h : assemble symbols p = .ok (a, s))
    {front back} (hf : p.decls = front ++ .func f :: back) :
    ∃ r, IsCodeOf symbols a front f r := by
  obtain ⟨⟨a', s'⟩, hdecls, h⟩ := bind_eq_ok.1 h
  cases h
  rw [hf] at hdecls
  obtain ⟨a1, s1, hfront, hrest⟩ := declsCode_append.1 hdecls
  obtain ⟨a2, s2, hfunc, hback⟩ := declsCode_cons.1 hrest
  obtain ⟨r, hr, rfl⟩ := declCode_func hfunc
  obtain ⟨code, hcode⟩ := declsCode_code hback
  exact ⟨r, a1, s1, s2, code, hfront, hr, hcode⟩

/-! ## Programs from their text -/

/-- Declarations that call functions among themselves, which have different names that do not start
with a digit. -/
structure Callable (symbols : Symbols) (ds : List Decl) : Prop where
  calls : ∀ d ∈ ds, d.Each (Expr.Calls (Symbols.IsFunction symbols))
  known : ∀ name, Symbols.IsFunction symbols name → name ∈ functionNames ds
  unnumbered : ∀ f ∈ functionNames ds, labelNumber? f = none
  nodup : (functionNames ds).Nodup

section

variable {source : List Char} {tokens : List Token} {p : Program} {symbols : Symbols}
  {a : Assembly} {s : GenState}

lemma callable_of_text (hscan : scan source = .ok tokens)
    (hparse : Program.ofTokens tokens = .ok (p, symbols))
    (hcheck : (p.check symbols).outcome = .ok ()) :
    Callable symbols (p.check symbols).tree.decls := by
  have hparsed := Program.ofTokens_parsed hparse
  obtain ⟨hnamed, hknown⟩ := Program.ofTokens_functions hparse
  refine ⟨?_, ?_, ?_, ?_⟩
  · intro d hd
    exact (Program.check_settled hparsed.formed hcheck d hd).imp fun e he => he.calls
  -- only a declaration makes a function known
  · rintro name ⟨params, result, hfind⟩
    rw [functionNames_check]
    exact mem_functionNames.2 (hknown name params result hfind)
  -- the name of a function is a token of the text, and a number would have been read before it
  · intro name hname
    rw [functionNames_check] at hname
    obtain ⟨f, hf, rfl⟩ := mem_functionNames.1 hname
    obtain ⟨t, ht, hlex⟩ := hnamed f hf
    exact labelNumber?_eq_none (scan_name hscan ht hlex)
  · rw [functionNames_check]
    exact (functionNames_sublist p.decls).nodup hparsed.nodup

lemma assemble_creates {p} (hnames : ∀ f ∈ functionNames p.decls, labelNumber? f = none)
    (hnodup : (functionNames p.decls).Nodup) (h : assemble symbols p = .ok (a, s)) :
    ∃ names, Creates (functionNames p.decls) .empty s.labels names (a.startUp ++ a.code) ∧
      ((∀ d ∈ p.decls, d.Each (Expr.Calls (Symbols.IsFunction symbols))) →
        Symbols.IsFunction symbols "main" →
        JumpsIn (Symbols.IsFunction symbols) names (a.startUp ++ a.code)) := by
  obtain ⟨⟨a', s'⟩, hdecls, h⟩ := bind_eq_ok.1 h
  cases h
  obtain ⟨names, start, code, hstart, hcode, hadd⟩ :=
    declsCode_adds (Symbols.IsFunction symbols) p.decls hnames hnodup hdecls
  have hstart' : a'.startUp = start := hstart
  have hcode' : a'.code = code := hcode
  rw [hstart', hcode']
  refine ⟨names, hadd.creates.perm ?_, fun hdecls hmain => ?_⟩
  -- the start-up code places no labels
  · rw [marks_append, marks_append, hadd.unmarked]
    exact .refl _
  · obtain ⟨hcalls, hjumps⟩ := hadd.calls hdecls
    have hcall : CallsOnly (Symbols.IsFunction symbols)
        [⟨.call, [.label "main" none, .u8 (.ofInt 0)]⟩] :=
      forall_mem_singleton.2 (.inr ⟨_, _, rfl, hmain⟩)
    refine ((JumpsIn.of_callsOnly hcalls).append
      ((JumpsIn.of_callsOnly hcall).append (.plain rfl))).append (hjumps.mono ?_)
    exact fun name hname => hadd.creates.placed.mem_iff.2 hname

lemma assemble_adds {p} (hcallable : Callable symbols p.decls)
    (hmain : Symbols.IsFunction symbols "main") (h : assemble symbols p = .ok (a, s)) :
    ∃ names, Creates (functionNames p.decls) .empty s.labels names (a.startUp ++ a.code) ∧
      JumpsIn (Symbols.IsFunction symbols) names (a.startUp ++ a.code) := by
  obtain ⟨names, hcreates, hjumps⟩ := assemble_creates hcallable.unnumbered hcallable.nodup h
  exact ⟨names, hcreates, hjumps hcallable.calls hmain⟩

/-- A program made from a text: no label is created twice, each stands in the code once, every jump
and call goes to one of them, and a jump of a function stays in its code. -/
theorem labels_created_once (hscan : scan source = .ok tokens)
    (hparse : Program.ofTokens tokens = .ok (p, symbols))
    (hcheck : (p.check symbols).outcome = .ok ())
    (hassemble : assemble symbols (p.check symbols).tree = .ok (a, s)) :
    ∃ names, s.labels = names.foldl Labels.create .empty ∧ names.Nodup ∧
      (marks (a.startUp ++ a.code)).Perm names ∧
      (∀ i ∈ a.startUp ++ a.code, i.op.isJump = true → ∃ name ∈ names, i.target? = some name) ∧
      ∀ front f back, (p.check symbols).tree.decls = front ++ .func f :: back →
        ∃ r, IsCodeOf symbols a front f r ∧ ∀ i ∈ r.code, i.op.isJump = true → i.op ≠ .call →
            ∃ name ∈ marks r.code, i.target? = some name := by
  have hcallable := callable_of_text hscan hparse hcheck
  have hmain := Program.isFunction_main (Program.ofTokens_parsed hparse).sound hcheck
  obtain ⟨names, hcreates, hjumps⟩ := assemble_adds hcallable hmain hassemble
  refine ⟨names, hcreates.labels, hcreates.nodup, hcreates.placed.symm, ?_, ?_⟩
  · intro i hi hjump
    obtain ⟨name, htgt, hname⟩ := hjumps i hi hjump
    refine ⟨name, ?_, htgt⟩
    split at hname
    · exact hcreates.listed name (hcallable.known name hname)
    · exact hname
  · intro front f back hf
    obtain ⟨r, hr⟩ := exists_isCodeOf hassemble hf
    refine ⟨r, hr, ?_⟩
    obtain ⟨a1, s1, s2, rest, _, hfunc, _⟩ := hr
    intro i hi hjump hcall
    obtain ⟨name, htgt, hname⟩ :=
      jumpsIn_funcCode (hcallable.calls (.func f) (by simp [hf])) hfunc i hi hjump
    rw [if_neg hcall] at hname
    exact ⟨name, hname, htgt⟩

end

open Keyword in
/-- The tokens of `fn f() { loop { break; } } fn main() { f(); if 1 { } }`. -/
def loopAndBranch : List Token := onLine
  [kwFn, .name "f", leftParen, rightParen, leftBrace, kwLoop, leftBrace, kwBreak, semicolon,
    rightBrace, rightBrace, kwFn, .name "main", leftParen, rightParen, leftBrace, .name "f",
    leftParen, rightParen, semicolon, kwIf, .int 1, leftBrace, rightBrace, rightBrace]

/-- The labels of `loopAndBranch` are created in the order in which they are placed; jumps and calls
go to them. -/
theorem labels_created_once_loopAndBranch : ∃ p symbols a s,
      scan ("fn f() \x7b loop \x7b break; \x7d \x7d fn main() ".toList ++
        "\x7b f(); if 1 \x7b \x7d \x7d".toList) = .ok loopAndBranch ∧
      Program.ofTokens loopAndBranch = .ok (p, symbols) ∧ (p.check symbols).outcome = .ok () ∧
      assemble symbols (p.check symbols).tree = .ok (a, s) ∧
      marks (a.startUp ++ a.code) =
        ["f", "1_loop_begin", "2_loop_end", "main", "4_if_else", "5_if_end"] ∧
      s.labels.counter = 6 ∧
      ∀ i ∈ a.startUp ++ a.code, i.op.isJump = true →
        ∃ name ∈ marks (a.startUp ++ a.code), i.target? = some name := by
  have hscan : scan ("fn f() \x7b loop \x7b break; \x7d \x7d fn main() ".toList ++
      "\x7b f(); if 1 \x7b \x7d \x7d".toList) = .ok loopAndBranch := by
    decide +kernel
  obtain ⟨p, symbols, hparse, hcheck, hcode⟩ : ∃ p symbols,
      Program.ofTokens loopAndBranch = .ok (p, symbols) ∧ (p.check symbols).outcome = .ok () ∧
        (assemble symbols (p.check symbols).tree).toOption.map
            (fun r => marks (r.1.startUp ++ r.1.code)) =
          some ["f", "1_loop_begin", "2_loop_end", "main", "4_if_else", "5_if_end"] :=
    ⟨_, _, rfl, rfl, by decide +kernel⟩
  obtain ⟨⟨a, s⟩, hres, hmarks⟩ := Option.map_eq_some_iff.1 hcode
  have hassemble := toOption_eq_some.1 hres
  obtain ⟨names, hlabs, _, hperm, hjumps, _⟩ := labels_created_once hscan hparse hcheck hassemble
  refine ⟨p, symbols, a, s, hscan, hparse, hcheck, hassemble, hmarks, ?_, ?_⟩
  · rw [hlabs, Labels.counter_foldl_create, ← hperm.length_eq, hmarks]
    rfl
  · intro i hi hjump
    obtain ⟨name, hname, htgt⟩ := hjumps i hi hjump
    exact ⟨name, hperm.mem_iff.2 hname, htgt⟩

end ArmStudio.Code
