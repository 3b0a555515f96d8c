import ArmStudio.Proofs.ParsedTrees
import ArmStudio.Proofs.Printing

/-!
# Keywords of system calls

An expression takes a keyword for a system call if its number is among those of the system
functions, and marks are numbered among them too.
-/

namespace ArmStudio.Script

mutual

def Stmt.exprs : Stmt → List Expr
  | .expr e => [e]
  | .decl d => d.init.toList
  | .ifElse cond yes no => cond :: (exprsIn yes ++ exprsIn no)
  | .whileDo cond body => cond :: exprsIn body
  | .loop body => exprsIn body
  | .ret value => value.toList
  | .leaveLoop | .blank => []

def exprsIn : List Stmt → List Expr
  | [] => []
  | st :: rest => st.exprs ++ exprsIn rest

end

/-- The expressions of a program that are not part of another. -/
def Program.exprs (p : Program) : List Expr := p.decls.flatMap fun
    | .var d => d.init.toList
    | .func f => exprsIn f.body

section

variable {P : Expr → Prop} {symbols : Symbols}

lemma forall_exprsIn {body} (h : ∀ st ∈ body, ∀ e ∈ st.exprs, P e) : ∀ e ∈ exprsIn body, P e := by
  induction body with
  | nil => simp [exprsIn]
  | cons st rest ih =>
    simp only [List.forall_mem_cons, exprsIn, List.forall_mem_append] at h ⊢
    exact ⟨h.1, ih h.2⟩

lemma Stmt.Each.forall_exprs {st : Stmt} (h : st.Each P) : ∀ e ∈ st.exprs, P e := by
  induction h with
  | expr he => simpa [exprs] using he
  | decl hd => simpa [exprs] using hd
  | ifElse hcond _ _ ihyes ihno =>
    simpa [exprs, hcond, or_imp, forall_and] using ⟨forall_exprsIn ihyes, forall_exprsIn ihno⟩
  | whileDo hcond _ ih => simpa [exprs, hcond] using forall_exprsIn ih
  | loop _ ih => simpa [exprs] using forall_exprsIn ih
  | ret hval => simpa [exprs] using hval
  | leaveLoop => simp [exprs]

lemma Program.forall_exprs {p : Program} (h : ∀ d ∈ p.decls, d.Each P) : ∀ e ∈ p.exprs, P e := by
  intro e he
  obtain ⟨d, hd, he⟩ := List.mem_flatMap.1 he
  cases d with
  | var d => exact h _ hd e (Option.mem_toList.1 he)
  | func f => exact forall_exprsIn (fun st hst => (h _ hd st hst).forall_exprs) e he

/-! ## Calls in expressions -/

lemma mem_nodesIn {e : Expr} {es} (h : e ∈ nodesIn es) : ∃ a ∈ es, e ∈ a.nodes := by
  induction es with
  | nil => simp [nodesIn] at h
  | cons a rest ih =>
    rcases List.mem_append.1 h with h | h
    · exact ⟨a, by simp, h⟩
    · obtain ⟨b, hb, h⟩ := ih h
      exact ⟨b, by simp [hb], h⟩

lemma Expr.Formed.sysCall_mem {e : Expr} (h : e.Formed symbols) {k}
    {args} : .sysCall k args ∈ e.nodes → k.startsCall ∧ k ≠ .leftParen := by
  induction h with
  | unary _ _ ih => simpa [nodes] using ih
  | convert t _ ih => simpa [nodes, Expr.convert] using ih
  | binary _ _ _ _ iha ihb => simpa [nodes, or_imp] using ⟨iha, ihb⟩
  | call _ _ ih =>
    intro hmem
    obtain ⟨a, ha, hmem⟩ := mem_nodesIn (by simpa [nodes] using hmem)
    exact ih a ha hmem
  | sysCall hfunc _ ih =>
    intro hmem
    rw [nodes, List.mem_cons] at hmem
    rcases hmem with heq | hmem
    · cases heq
      exact hfunc
    · obtain ⟨a, ha, hmem⟩ := mem_nodesIn hmem
      exact ih a ha hmem
  | _ => simp [nodes]

end

/-! ## Calls in programs -/

/-- The marks that are numbered among the system functions and do not open a parenthesis. -/
def Keyword.isMarkedCall : Keyword → Bool
  | rightParen | leftBrace | rightBrace | comma | semicolon => true
  | _ => false

lemma Keyword.startsCall_iff (k : Keyword) : k.startsCall ∧ k ≠ .leftParen ↔
    k.isSystemFunction ∨ k.isMarkedCall := by
  cases k <;> decide

open Keyword in
/-- The tokens of a function that negates what the keyword stands for. -/
def negation (k : Keyword) : List Token := mainWith [minus, k, semicolon]

lemma ofTokens_negation {k} (hstarts : k.startsCall) (hparen : k ≠ .leftParen) :
    ∃ symbols, Program.ofTokens (negation k) =
      .ok (⟨[.func ⟨"main", [], .void, [.expr (.unary .minus (.sysCall k []))], 0⟩]⟩, symbols) := by
  -- behind the sign such a keyword is read as an operand, also one that ends a block
  cases k <;> first
    | exact ⟨_, rfl⟩
    | exact absurd rfl hparen
    | exact absurd hstarts (by decide)

/-- The keywords at the system calls of parsed programs are the system functions and, besides them,
the marks `)`, `{`, `}`, `,` and `;`. -/
theorem parsed_sysCall_iff (k : Keyword) :
    (∃ tokens p symbols, Program.ofTokens tokens = .ok (p, symbols) ∧
      ∃ e ∈ p.exprs, ∃ args, .sysCall k args ∈ e.nodes) ↔
    k.isSystemFunction = true ∨ k.isMarkedCall = true := by
  rw [← Keyword.startsCall_iff]
  constructor
  · rintro ⟨tokens, p, symbols, h, e, he, args, hmem⟩
    exact (Program.forall_exprs (Program.ofTokens_parsed h).formed e he).sysCall_mem hmem
  · rintro ⟨hstarts, hparen⟩
    obtain ⟨symbols, h⟩ := ofTokens_negation hstarts hparen
    exact ⟨_, _, symbols, h, _, List.mem_singleton_self _, [], by simp [Expr.nodes]⟩

end ArmStudio.Script
