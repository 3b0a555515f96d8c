import ArmStudio.Proofs.Compilation

/-!
# Programs that only initialise global variables

Such a program is analysed, assembled, linked and loaded. The machine that runs it halts with the
first values of the variables if each of them needs at most two words of the stack. The first value
that needs a third word stops it.
-/

namespace ArmStudio.Machine

open Code Script Program

section

variable {p : Program}

/-- The function `main` leaves the globals as they are. -/
theorem callFunc_emptyMain (hp : p.OnlyInitialises) (values : Table Int32) :
    callFunc machineRoom p 2 0 values "main" [] = some (none, values) := by
  have hmain : p.func? "main" = some emptyMain := by
    obtain ⟨f, hf⟩ : ∃ f, p.func? "main" = some f := by
      rw [← Option.isSome_iff_exists, func?, List.find?_isSome]
      exact ⟨emptyMain, List.mem_filterMap.2 ⟨_, hp.main, rfl⟩, by decide⟩
    obtain ⟨_, hmem, -⟩ := declsAre_mem hp.decls (func?_eq_some hf).1
    rw [hf, hmem]
  have hbody : ∀ s : Store, execStmts machineRoom p 1 (0 + 3 + emptyMain.localCount) s
      emptyMain.body = some (.normal, s) := by
    intro s
    rw [emptyMain, execStmts]
  exact callFunc_eq_some.2
    ⟨emptyMain, .normal, _, hmain, zero_le, rfl, hbody _, rfl, rfl⟩

end

/-- The analysis folds the first values of the variables, and the program is assembled. If its code
has less than 65536 bytes, it is linked. The machine refuses the file if it has too many globals,
and otherwise loads it. It halts with the first values, evaluated in order, exactly if none of them
needs more than two words of the stack. Otherwise it stops, because it takes a stack of three words
for a frame without operands. -/
theorem run_initialises (p : Program) (symbols : Symbols) (hp : p.OnlyInitialises)
    (hsym : p.Declares symbols) (hroom : ∀ d ∈ p.folded.vars, d.depth ≤ stackSize) :
    p.check symbols = ⟨p.folded, [], .ok ()⟩ ∧ ∃ a s, assemble symbols p.folded = .ok (a, s) ∧
        (width (a.startUp ++ a.code) < 65536 → ∃ file, (link a s.labels).file = .ok file ∧
            (Image.globalLimit < p.vars.length → Image.load file = .error .globalsTooLarge) ∧
            (p.vars.length ≤ Image.globalLimit →
              ∃ image, Image.load file = .ok image ∧ ∀ hardware, ∃ n, ∀ limit, n ≤ limit →
                if ∀ d ∈ p.folded.vars, d.depth ≤ 2 then
                  (run hardware limit image).2.status = .halted ∧
                    HasGlobals (p.vars.map VarDecl.name) p.firstValues (run hardware limit image).2
                else (run hardware limit image).2.status = .operandUnderflow)) := by
  have hlen : p.folded.vars.length = p.vars.length := by
    rw [vars_folded, List.length_map]
  have hnames : p.folded.vars.map VarDecl.name = p.vars.map VarDecl.name := by
    rw [vars_folded, List.map_map]
    rfl
  refine ⟨hp.check_eq hsym, ?_⟩
  have hrun := run_assembled hp.folded.isArithmetic hsym.folded hroom
  rw [hlen, hnames, hp.firstValues_folded] at hrun
  obtain ⟨a, s, hasm, hlinks⟩ := hrun
  refine ⟨a, s, hasm, fun hwidth => ?_⟩
  obtain ⟨file, hfile, hrefused, hloads⟩ := hlinks hwidth
  refine ⟨file, hfile, hrefused, fun hlimit => ?_⟩
  obtain ⟨image, hload, hstops⟩ := hloads hlimit
  exact ⟨image, hload, hstops 2 none _ (callFunc_emptyMain hp.folded _)⟩

/-! ## Two ways to add up three words -/

/-- A variable with the value 1, and one with a value made of it. -/
def twoVars (second : Expr) : Program := ⟨[.var ⟨.int, "a", false, some (intLiteral 1)⟩,
  .var ⟨.int, "b", false, some second⟩,
  .func emptyMain]⟩

lemma twoVars_onlyInitialises {second : Expr} (h : second.isArithmetic ["a"] = true) :
    (twoVars second).OnlyInitialises where
  distinct := by
    show ["a", "b", "main"].Nodup
    decide
  main := by simp [twoVars]
  decls := ⟨⟨rfl, rfl, _, rfl, rfl⟩, ⟨rfl, rfl, second, rfl, h⟩, rfl, trivial⟩

def sumFromLeft : Expr := .binary .plus (.binary .plus (intVar "a") (intVar "a")) (intVar "a")

def sumFromRight : Expr := .binary .plus (intVar "a") (.binary .plus (intVar "a") (intVar "a"))

/-- The sum from the left halts with its value, and the one from the right stops. -/
theorem run_initialises_sums : (∃ a s file image,
      assemble (twoVars sumFromLeft).symbols (twoVars sumFromLeft).folded = .ok (a, s) ∧
        (link a s.labels).file = .ok file ∧ Image.load file = .ok image ∧
        ∀ hardware, ∃ n, ∀ limit, n ≤ limit → (run hardware limit image).2.status = .halted ∧
            HasGlobals ["a", "b"] ⟨[("a", 1), ("b", 3)]⟩ (run hardware limit image).2) ∧
      ∃ a s file image,
        assemble (twoVars sumFromRight).symbols (twoVars sumFromRight).folded = .ok (a, s) ∧
          (link a s.labels).file = .ok file ∧ Image.load file = .ok image ∧
          ∀ hardware, ∃ n, ∀ limit, n ≤ limit →
            (run hardware limit image).2.status = .operandUnderflow := by
  constructor
  · obtain ⟨_, a, s, hasm, hrun⟩ := run_initialises (twoVars sumFromLeft) _
      (twoVars_onlyInitialises (by decide)) (declares_symbols _) (by decide)
    have hwidth : (assemble (twoVars sumFromLeft).symbols (twoVars sumFromLeft).folded).toOption.map
        (fun r => width (r.1.startUp ++ r.1.code)) = some 30 := by
      decide +kernel
    have hbytes : width (a.startUp ++ a.code) = 30 := by
      simpa [hasm] using hwidth
    have hvals : (twoVars sumFromLeft).firstValues = ⟨[("a", 1), ("b", 3)]⟩ := by decide +kernel
    have hsafe : ∀ d ∈ (twoVars sumFromLeft).folded.vars, d.depth ≤ 2 := by decide
    obtain ⟨file, hfile, _, hloads⟩ := hrun (by omega)
    obtain ⟨image, hload, hhalts⟩ := hloads (by decide)
    simp only [if_pos hsafe, hvals] at hhalts
    exact ⟨a, s, file, image, hasm, hfile, hload, hhalts⟩
  · obtain ⟨_, a, s, hasm, hrun⟩ := run_initialises (twoVars sumFromRight) _
      (twoVars_onlyInitialises (by decide)) (declares_symbols _) (by decide)
    have hwidth : (assemble (twoVars sumFromRight).symbols
        (twoVars sumFromRight).folded).toOption.map
        (fun r => width (r.1.startUp ++ r.1.code)) = some 30 := by
      decide +kernel
    have hbytes : width (a.startUp ++ a.code) = 30 := by
      simpa [hasm] using hwidth
    have hdeep : ¬ ∀ d ∈ (twoVars sumFromRight).folded.vars, d.depth ≤ 2 := by decide
    obtain ⟨file, hfile, _, hloads⟩ := hrun (by omega)
    obtain ⟨image, hload, hstops⟩ := hloads (by decide)
    simp only [if_neg hdeep] at hstops
    exact ⟨a, s, file, image, hasm, hfile, hload, hstops⟩

end ArmStudio.Machine
