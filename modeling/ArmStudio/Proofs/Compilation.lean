import ArmStudio.Proofs.StartUp

/-!
# Compiled programs of the integer core

A program of the integer core is assembled, linked and loaded, and the machine that runs it halts
with the globals that the program means.
-/

namespace ArmStudio.Machine

open Code Script Image VarDecl

section

variable {p : Program} {symbols : Symbols} {a : Assembly} {s : GenState} {image : Image}
  {place : String → Int} {sensors : Sensors} {m : State}

variable {globals : List String} {b fuel : Nat} {startUp : List Instr} {result : Option Int32}

lemma installed_of_codeAt {before f code}
    (hf : f.IsCore before p) (hglobs : ∀ x ∈ globals, x ∈ p.names)
    (his : FuncCodeIs globals f code) (hc : image.CodeAt place b code) :
    Installed globals image place f := by
  rcases his with ⟨body, tail, rfl, hare, hend⟩
  refine ⟨hf.distinct, fun x hx hglob => hf.apart x hx (hglobs x hglob), hf.counted,
    hf.small, b, body, tail, ?_, hare, hc, fun hcan => ⟨[], hend hcan⟩⟩
  exact hc.1.2.2 f.name rfl

lemma loaded_of_complete (ha : Complete p (p.vars.map name) startUp a s)
    (hfuncs : ∀ f, .func f ∈ p.decls → ∃ before, f.IsCore before p) (hfew : p.vars.length ≤ 65536)
    (hc : image.CodeAt place b a.code) : Loaded p (p.vars.map name) image place := by
  refine ⟨by simpa using hfew, ?_⟩
  intro name f hf
  rcases Program.func?_eq_some hf with ⟨hdecl, rfl⟩
  rcases hfuncs f hdecl with ⟨before, hcore⟩
  rcases ha.funcs f (List.mem_of_find?_eq_some hf) with ⟨pre, code, post, hcode, his⟩
  rw [hcode, codeAt_append, codeAt_append] at hc
  refine installed_of_codeAt hcore ?_ his hc.1.2
  intro x hx
  rcases List.mem_map.1 hx with ⟨d, hd, rfl⟩
  exact List.mem_map.2 ⟨.var d, Program.mem_decls_of_mem_vars hd, rfl⟩

/-- An assembled program is linked, and the machine loads it unless it has too many globals. -/
theorem linked_of_complete (ha : Complete p globals startUp a s) (hfew : p.vars.length < 65536)
    (hwidth : width (a.startUp ++ a.code) < 65536) :
    ∃ file, (link a s.labels).file = .ok file ∧
      (globalLimit < p.vars.length → load file = .error .globalsTooLarge) ∧
      (p.vars.length ≤ globalLimit →
        ∃ image place, load file = .ok image ∧ image.globalCount = p.vars.length ∧
          image.CodeAt place 0 (startUp ++ callMain) ∧
          image.CodeAt place (width (startUp ++ callMain)) a.code) := by
  have hnone : constantBytes a.constants = .ok [] := by
    rw [ha.constants]
    rfl
  have hlen : ([] : List UInt8).length = 4 * a.constants.length := by simp [ha.constants]
  have hcount : a.constants.length ≤ constantLimit := by simp [ha.constants]
  refine ⟨_, link_file ha.fresh ha.fits ha.created ha.nodup hnone
    ha.globalSize, ?_, ?_⟩
  · intro hmany
    exact load_linked_refused ha.fits hlen hcount hmany hfew hwidth
  · intro hlimit
    obtain ⟨image, hload, hglobs, _, hc⟩ :=
      load_linked ha.fits ha.nodup hlen hcount hlimit hwidth
    rw [codeAt_append, zero_add] at hc
    rw [← ha.startUp]
    exact ⟨image, _, hload, hglobs, hc.1, hc.2⟩

/-! ## Runs -/

lemma callMain_halts {before after} (hload : Loaded p globals image place)
    (hcall : callFunc machineRoom p fuel 0 before "main" [] = some (result, after))
    (hm : m.At image b) (hsize : m.stack.size = stackSize + 1) (htop : m.top.toNat = 0)
    (hglobs : HasGlobals globals before m) (hc : image.CodeAt place b callMain) :
    ∃ m', Runs sensors m m' ∧ m'.status = .halted ∧ HasGlobals globals after m' := by
  obtain ⟨m1, hruns, hm1, hback⟩ := (simulates sensors hload fuel).call hcall hm hsize
    (by simpa using htop) (by simp) hglobs hc
  have hhalt := hm1.step_halt sensors hc.2
  exact ⟨_, hruns.trans (Runs.step hm1 hhalt), rfl, hback.globals.names, hback.globals.values⟩

lemma run_of_runs {hardware} (h : Runs ⟨false, hardware.angles⟩ (.start image) m)
    (hstop : m.status ≠ .running) :
    ∃ n, ∀ limit, n ≤ limit → (run hardware limit image).2 = m := by
  rcases h.runFrom_eq rfl hstop with ⟨n, hn⟩
  exact ⟨n, fun limit hlimit => hn limit hlimit 0 []⟩

/-- If no first value needs a third word, a loaded program halts with the globals that `main`
leaves. Otherwise it stops. -/
theorem run_loaded {after} (hp : p.IsArithmetic) (hroom : ∀ d ∈ p.vars, d.depth ≤ stackSize)
    (hload : Loaded p (p.vars.map name) image place) (hfew : p.vars.length ≤ 65536)
    (hcount : image.globalCount = p.vars.length) (hc : image.CodeAt place 0
      (startCode (exprInit (p.vars.map name)) 0 p.vars ++ callMain))
    (hcall : callFunc machineRoom p fuel 0 p.firstValues "main" [] = some (result, after))
    (hardware : Hardware) :
    ∃ n, ∀ limit, n ≤ limit → if ∀ d ∈ p.vars, d.depth ≤ 2 then
        (run hardware limit image).2.status = .halted ∧
          HasGlobals (p.vars.map name) after (run hardware limit image).2
      else (run hardware limit image).2.status = .operandUnderflow := by
  rw [codeAt_append, zero_add] at hc
  have hgoes : Goes ⟨false, hardware.angles⟩ image (p.vars.any fun d => decide (3 ≤ d.depth))
      (.start image) (0 + width (startCode (exprInit (p.vars.map name)) 0 p.vars))
      (Holding [] (tableWords p.firstValues)) :=
    vars_goes p.vars .empty (List.replicate image.globalCount 0) 0 _ (declsAre_vars hp.decls)
      (by simpa using hfew) hroom (by simp [hcount]) ⟨rfl, rfl, rfl, rfl⟩ (.start image) hc.1
  by_cases hsafe : ∀ d ∈ p.vars, d.depth ≤ 2
  · have hgood : (p.vars.any fun d => decide (3 ≤ d.depth)) = false := by
      rw [List.any_eq_false]
      intro d hd
      have := hsafe d hd
      simp only [decide_eq_true_eq]
      omega
    -- The globals have their first values, and `main` is called.
    rw [hgood] at hgoes
    obtain ⟨m1, hruns1, hm1, hh⟩ := hgoes
    rw [zero_add] at hm1
    have hglobs : HasGlobals (p.vars.map name) p.firstValues m1 :=
      ⟨names_valuesFrom p.vars .empty, hh.globals⟩
    obtain ⟨m2, hruns2, hstatus, hafter⟩ := callMain_halts hload hcall hm1 hh.size hh.top
      hglobs hc.2
    obtain ⟨n, hn⟩ := run_of_runs (hruns1.trans hruns2) (by simp [hstatus])
    refine ⟨n, fun limit hlimit => ?_⟩
    rw [if_pos hsafe, hn limit hlimit]
    exact ⟨hstatus, hafter⟩
  · have hbad : (p.vars.any fun d => decide (3 ≤ d.depth)) = true := by
      rw [List.any_eq_true]
      simp only [not_forall, not_le] at hsafe
      obtain ⟨d, hd, hdeep⟩ := hsafe
      exact ⟨d, hd, decide_eq_true hdeep⟩
    -- The machine stops within the start-up code.
    rw [hbad] at hgoes
    obtain ⟨m1, hruns, hstatus⟩ := hgoes
    obtain ⟨n, hn⟩ := run_of_runs hruns (by simp [hstatus])
    refine ⟨n, fun limit hlimit => ?_⟩
    rwa [if_neg hsafe, hn limit hlimit]

lemma run_assembled (hp : p.IsArithmetic) (hsym : p.Declares symbols)
    (hroom : ∀ d ∈ p.vars, d.depth ≤ stackSize) :
    ∃ a s, assemble symbols p = .ok (a, s) ∧ (width (a.startUp ++ a.code) < 65536 →
        ∃ file, (link a s.labels).file = .ok file ∧
          (globalLimit < p.vars.length → load file = .error .globalsTooLarge) ∧
          (p.vars.length ≤ globalLimit → ∃ image, load file = .ok image ∧
              ∀ fuel result after,
                callFunc machineRoom p fuel 0 p.firstValues "main" [] = some (result, after) →
                ∀ hardware, ∃ n, ∀ limit, n ≤ limit → if ∀ d ∈ p.vars, d.depth ≤ 2 then
                    (run hardware limit image).2.status = .halted ∧
                      HasGlobals (p.vars.map name) after (run hardware limit image).2
                  else (run hardware limit image).2.status = .operandUnderflow)) := by
  obtain ⟨a, s, hasm, ha⟩ := assemble_arithmetic hp hsym
  refine ⟨a, s, hasm, fun hwidth => ?_⟩
  have hfew : p.vars.length ≤ width (a.startUp ++ a.code) := by
    have := length_le_width_startCode (p.vars.map name) p.vars 0
    rw [width_append, ha.startUp, width_append]
    omega
  obtain ⟨file, hfile, hrefused, hloads⟩ := linked_of_complete ha (by omega) hwidth
  refine ⟨file, hfile, hrefused, fun hlimit => ?_⟩
  obtain ⟨image, place, hload, hglobs, hstartUp, hcode⟩ := hloads hlimit
  have hloaded := loaded_of_complete ha (fun f hf => (declsAre_mem hp.decls hf).imp fun _ h => h.1)
    (by omega) hcode
  refine ⟨image, hload, fun fuel result after hcall hardware => ?_⟩
  exact run_loaded hp hroom hloaded (by omega) hglobs hstartUp hcall hardware

end

/-- Every program of the integer core is assembled. If its code has less than 65536 bytes, it is
linked. The machine refuses the file if it has too many globals, and otherwise loads it. Whenever
the program, evaluated with the machine's room, ends with some globals, the machine halts with
them, whatever the hardware answers. -/
theorem run_compiled (p : Program) (symbols : Symbols) (hp : p.IsCore) (hsym : p.Declares symbols) :
    ∃ a s, assemble symbols p = .ok (a, s) ∧ (width (a.startUp ++ a.code) < 65536 →
        ∃ file, (link a s.labels).file = .ok file ∧
          (globalLimit < p.vars.length → load file = .error .globalsTooLarge) ∧
          (p.vars.length ≤ globalLimit → ∃ image, load file = .ok image ∧
              ∀ fuel globals, p.meaning machineRoom fuel = some globals →
                ∀ hardware, ∃ n, ∀ limit, n ≤ limit →
                  (run hardware limit image).2.status = .halted ∧
                  HasGlobals (p.vars.map name) globals (run hardware limit image).2)) := by
  have hdepth : ∀ d ∈ p.vars, d.depth ≤ 2 := fun d hd => by
    rw [hp.depth_eq hd]
    decide
  obtain ⟨a, s, hasm, hrun⟩ := run_assembled hp.isArithmetic hsym
    fun d hd => Nat.le_trans (hdepth d hd) (by decide)
  refine ⟨a, s, hasm, fun hwidth => ?_⟩
  obtain ⟨file, hfile, hrefused, hloads⟩ := hrun hwidth
  refine ⟨file, hfile, hrefused, fun hlimit => ?_⟩
  obtain ⟨image, hload, hhalts⟩ := hloads hlimit
  simp only [if_pos hdepth] at hhalts
  refine ⟨image, hload, fun fuel globals hmeaning hardware => ?_⟩
  obtain ⟨⟨result, after⟩, hcall, rfl⟩ := Option.map_eq_some_iff.1 hmeaning
  rw [← hp.firstValues_eq] at hcall
  exact hhalts fuel result after hcall hardware

/-! ## A program with a loop and a recursive function -/

def intVar (name : String) : Expr := .var name (.ofVar .int false)

def intLiteral (n : Int) : Expr := .literal (.int n)

def factorials : Program := ⟨[.var ⟨.int, "sum", false, some (intLiteral 0)⟩,
  .func ⟨"factorial", [⟨.int, "n", false⟩], .int, [
    .ifElse (.binary .lessEqual (intVar "n") (intLiteral 1)) [.ret (some (intLiteral 1))] [],
    .ret (some (.binary .times (intVar "n") (.call "factorial" (.ofFunction [.int] .int)
      [.binary .minus (intVar "n") (intLiteral 1)])))], 1⟩,
  .func ⟨"main", [], .void, [.decl ⟨.int, "i", false, some (intLiteral 3)⟩,
    .whileDo (.binary .greater (intVar "i") (intLiteral 0)) [
      .expr (.binary .addAssign (intVar "sum")
        (.call "factorial" (.ofFunction [.int] .int) [intVar "i"])),
      .expr (.binary .subAssign (intVar "i") (intLiteral 1))]], 1⟩]⟩

lemma factorials_isCore : factorials.IsCore := by
  refine ⟨by decide, by decide, ⟨⟨rfl, rfl, 0, rfl⟩, ?_, ?_, trivial⟩⟩
  · constructor <;> decide
  · constructor <;> decide

/-- The machine adds up the factorials. -/
theorem run_compiled_factorials : factorials.IsCore ∧ factorials.Declares factorials.symbols ∧
      ∃ a s file image, assemble factorials.symbols factorials = .ok (a, s) ∧
        (link a s.labels).file = .ok file ∧ load file = .ok image ∧
        ∀ hardware, ∃ n, ∀ limit, n ≤ limit → (run hardware limit image).2.status = .halted ∧
          HasGlobals ["sum"] ⟨[("sum", 9)]⟩ (run hardware limit image).2 := by
  have hsym := factorials.declares_symbols
  refine ⟨factorials_isCore, hsym, ?_⟩
  obtain ⟨a, s, hasm, hrun⟩ := run_compiled factorials factorials.symbols factorials_isCore hsym
  have hwidth : (assemble factorials.symbols factorials).toOption.map
      (fun r => width (r.1.startUp ++ r.1.code)) = some 98 := by
    decide +kernel
  have hbytes : width (a.startUp ++ a.code) = 98 := by
    simpa [hasm] using hwidth
  have hmeaning : factorials.meaning machineRoom 40 = some ⟨[("sum", 9)]⟩ := by decide +kernel
  obtain ⟨file, hfile, _, hloads⟩ := hrun (by omega)
  obtain ⟨image, hload, hhalts⟩ := hloads (by decide)
  exact ⟨a, s, file, image, hasm, hfile, hload, hhalts 40 _ hmeaning⟩

end ArmStudio.Machine
