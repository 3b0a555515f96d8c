import ArmStudio.Build
import ArmStudio.Proofs.Counting
import ArmStudio.Proofs.LabelHygiene
import ArmStudio.Proofs.RoundTrip

/-!
# Byte files of successful builds

A build that succeeds leaves a byte file, which the machine is to load. Both sides have limits: a
build allows 65536 bytes of code, of constants and of globals, the machine 1024 constants, 4096
globals and a size of the code that fits sixteen bits.
-/

namespace ArmStudio.Code

open Script

lemma length_constantBytes {values bytes}
    (h : constantBytes values = .ok bytes) : bytes.length = 4 * values.length := by
  induction values generalizing bytes with
  | nil =>
    cases h
    rfl
  | cons v rest ih =>
    rw [constantBytes] at h
    split at h
    · cases h
    · obtain ⟨others, hothers, h⟩ := bind_eq_ok.1 h
      cases h
      rw [List.length_append, length_intBytes, ih hothers, List.length_cons]
      omega

lemma Linker.fits_of_takeAll (is : List Instr) : ∀ {l : Linker}, (l.takeAll is).2 = none →
    ∀ i ∈ is, i.Fits := by
  induction is with
  | nil =>
    intro l _ i hi
    cases hi
  | cons i rest ih =>
    intro l h
    rcases i.fits_or_refused with hi | ⟨e, _, hstop⟩
    · rcases htake : l.take i with ⟨l1, error?⟩
      rw [Linker.takeAll, htake] at h
      cases error? with
      | none => exact List.forall_mem_cons.2 ⟨hi, ih h⟩
      | some e => cases h
    · obtain ⟨l', htake⟩ := hstop l
      rw [Linker.takeAll, htake] at h
      cases h

lemma fits_of_link {a} {labels : Labels} {file} (h : (link a labels).file = .ok file) :
    ∃ constants, constantBytes a.constants = .ok constants ∧ ∀ i ∈ a.startUp ++ a.code, i.Fits := by
  cases hconsts : constantBytes a.constants with
  | error e => simp [link, hconsts] at h
  | ok constants =>
    rcases hall : Linker.takeAll ⟨(a.head constants).toArray, (a.head constants).length, labels,
      .empty⟩ (a.startUp ++ a.code) with ⟨l, error?⟩
    rw [link_of_constants labels hconsts hall] at h
    cases error? with
    | none => exact ⟨constants, rfl, Linker.fits_of_takeAll _ (by rw [hall])⟩
    | some e => cases h

end ArmStudio.Code

namespace ArmStudio.Build

open Number Script Code

/-! ## Builds that succeed -/

/-- The stages of a build from a text to its assembly. -/
structure Stages (source : List Char) (p : Program) (symbols : Symbols) (a : Assembly)
    (s : GenState) : Prop where
  parsed : ∃ tokens, scan source = .ok tokens ∧ Program.ofTokens tokens = .ok (p, symbols)
  accepted : (p.check symbols).outcome = .ok ()
  assembled : assemble symbols (p.check symbols).tree = .ok (a, s)

variable {b : Build} {project : String}

lemma andThen_success {ε α : Type} {wrap : ε → BuildError} {r : Except ε α} {next : α → Build}
    (h : (b.andThen wrap r next).success) (hb : b.success = false) :
    ∃ x, r = .ok x ∧ b.andThen wrap r next = next x := by
  cases r with
  | ok x => exact ⟨x, rfl, rfl⟩
  | error e =>
    have hfail : (b.fail (wrap e)).success = b.success := rfl
    rw [andThen, hfail, hb] at h
    cases h

lemma files_foldl_say (messages : List String) (b : Build) :
    (messages.foldl say b).files = b.files := by
  induction messages generalizing b with
  | nil => rfl
  | cons m rest ih => exact ih (b.say m)

lemma success_foldl_hints (hints : List Hint) (b : Build) :
    (hints.foldl (fun b h => b.say h.text) b).success = b.success := by
  induction hints generalizing b with
  | nil => rfl
  | cons m rest ih => exact ih (b.say m.text)

/-- The build leaves the byte file of an assembly, which is within its limits. -/
structure Leaves (b : Build) (project : String) (a : Assembly) (s : GenState) (file : List UInt8) :
    Prop where
  linked : (link a s.labels).file = .ok file
  sizes : (Sizes.of file s.storage).error? = none
  found : b.files.find? (project ++ ".byte") = some (.bytes file)

lemma emit_success {a : Assembly} {s : GenState} (h : (b.emit project a s).success)
    (hb : b.success = false) : ∃ file, (b.emit project a s).Leaves project a s file := by
  unfold emit at h ⊢
  obtain ⟨file, hfile, hnext⟩ := andThen_success h hb
  rw [hnext] at h ⊢
  cases hsizes : (Sizes.of file s.storage).error? with
  | some e =>
    simp only [hsizes, fail, say, write, hb] at h
    cases h
  | none =>
    refine ⟨file, hfile, hsizes, ?_⟩
    simp only [hsizes, say, files_foldl_say, write]
    exact Table.find?_insert_self _ _ _

lemma generate_success {symbols : Symbols} {p : Program}
    (h : (b.generate project symbols p).success) (hb : b.success = false) :
    ∃ a s file, assemble symbols p = .ok (a, s) ∧
      (b.generate project symbols p).Leaves project a s file := by
  simp only [generate, writeText] at h ⊢
  obtain ⟨_, _, houtline⟩ := andThen_success h hb
  rw [houtline] at h ⊢
  obtain ⟨_, _, htree⟩ := andThen_success h hb
  rw [htree] at h ⊢
  obtain ⟨⟨a, s⟩, hasm, hnext⟩ := andThen_success h hb
  rw [hnext] at h ⊢
  obtain ⟨_, _, hlisting⟩ := andThen_success h hb
  rw [hlisting] at h ⊢
  obtain ⟨_, _, hstorage⟩ := andThen_success h hb
  rw [hstorage] at h ⊢
  obtain ⟨file, hfile⟩ := emit_success h hb
  exact ⟨a, s, file, hasm, hfile⟩

/-- A successful build went through all stages and leaves the byte file of the assembly. -/
theorem compile_success {source : List Char} (h : (compile project source).success) :
    ∃ p symbols a s file, Stages source p symbols a s ∧
      (compile project source).Leaves project a s file := by
  unfold compile at h ⊢
  obtain ⟨tokens, hscan, htokens⟩ := andThen_success h rfl
  rw [htokens] at h ⊢
  obtain ⟨⟨p, symbols⟩, hparse, htree⟩ := andThen_success h rfl
  rw [htree] at h ⊢
  simp only at h ⊢
  obtain ⟨_, hcheck, hchecked⟩ := andThen_success h rfl
  rw [hchecked] at h ⊢
  obtain ⟨a, s, file, hasm, hfile⟩ := generate_success h (success_foldl_hints _ _)
  exact ⟨p, symbols, a, s, file, ⟨⟨tokens, hscan, hparse⟩, hcheck, hasm⟩, hfile⟩

/-! ## The byte file -/

section

variable {source : List Char} {p : Program} {symbols : Symbols} {a : Assembly} {s : GenState}
  (h : Stages source p symbols a s)

include h

lemma Stages.counts :
    a.constants.length = p.constantNames.length ∧ a.globalSize = p.variableNames.length ∧
      s.storage.constants.size = p.constantNames.length ∧
      s.storage.globals.size = p.variableNames.length := by
  obtain ⟨tokens, _, hparse⟩ := h.parsed
  have htallied := tallied_assemble h.assembled
  -- constants of functions are global names too, so none of them is declared twice
  have hnodup : (p.check symbols).tree.globalNames.Nodup := by
    rw [Program.globalNames_check]
    exact (Program.ofTokens_parsed hparse).nodup
  have hsizes := htallied.sizes hnodup
  rw [(Program.names_check p).1, (Program.names_check p).2] at htallied hsizes
  exact ⟨htallied.constants, htallied.globals, hsizes⟩

lemma Stages.created :
    ∀ name ∈ marks (a.startUp ++ a.code), s.labels.places.contains name = true := by
  obtain ⟨tokens, hscan, hparse⟩ := h.parsed
  have hcallable := callable_of_text hscan hparse h.accepted
  obtain ⟨names, hcreates, _⟩ := assemble_creates hcallable.unnumbered hcallable.nodup h.assembled
  exact hcreates.linkable.2.1

/-- The byte file has the constants and globals of the program, and code as wide as its
instructions. -/
theorem Stages.file {file : List UInt8} (hfile : (link a s.labels).file = .ok file) :
    ∃ constants code, constants.length = 4 * p.constantNames.length ∧
      code.length = width (a.startUp ++ a.code) ∧
      file = complete (Machine.Image.header p.constantNames.length constants
        p.variableNames.length ++ code).toArray := by
  obtain ⟨hconsts, hglobs, _⟩ := h.counts
  obtain ⟨constants, hbytes, hfit⟩ := fits_of_link hfile
  have hhead : a.head constants =
      Machine.Image.header p.constantNames.length constants p.variableNames.length := by
    rw [Assembly.head, Machine.Image.header, hconsts, hglobs]
  refine ⟨constants, linkedCode s.labels (a.startUp ++ a.code), ?_, ?_, ?_⟩
  · rw [length_constantBytes hbytes, hconsts]
  · have htaken := (Linker.takeAll_of_fits (l := ⟨#[], 0, s.labels, .empty⟩) _ hfit h.created).2
    rw [linkedCode, Array.length_toList, htaken]
    exact zero_add _
  · rw [link_file_linkedCode hbytes hfit h.created, hhead] at hfile
    exact (Except.ok.inj hfile).symm

end

lemma Sizes.error?_eq_none {sizes : Sizes} (h : sizes.error? = none) :
    sizes.program ≤ 65536 ∧ sizes.constants ≤ 65536 ∧ sizes.globals ≤ 65536 := by
  unfold Sizes.error? sizeLimit at h
  split at h
  · cases h
  split at h
  · cases h
  split at h
  · cases h
  omega

end ArmStudio.Build

/-! ## Loading the byte file -/

namespace ArmStudio.Machine.Image

open Code

/-- A completed file, not larger than builds allow: why it is refused, with which sizes it is loaded
otherwise, and when these are its own. -/
lemma load_complete_iff {constantCount globalCount : Nat} {constants code}
    (hconst : constants.length = 4 * constantCount) (hcount : constantCount < 65536)
    (hglobs : globalCount < 65536) (hcode : code.length ≤ 65536) :
    let file := complete (header constantCount constants globalCount ++ code).toArray
    (∀ e, load file = .error e ↔ (1024 < constantCount ∧ e = .constantsTooLarge) ∨
      (constantCount ≤ 1024 ∧ 4096 < globalCount ∧ e = .globalsTooLarge)) ∧
    (∀ image, load file = .ok image → image.constantCount = constantCount ∧
      image.globalCount = globalCount ∧ image.codeSize.toNat = code.length % 65536) ∧
    ((∃ image, load file = .ok image ∧ image.constantCount = constantCount ∧
        image.globalCount = globalCount ∧ image.codeSize.toNat = code.length) ↔
      constantCount ≤ 1024 ∧ globalCount ≤ 4096 ∧ code.length < 65536) := by
  intro file
  have hload : load file = _ := load_complete_cases hconst hcount hglobs hcode
  by_cases hmany : constantLimit < constantCount
  · have hfew : ¬ constantCount ≤ 1024 := not_le.2 hmany
    rw [if_pos hmany] at hload
    simp [hload, hfew, not_le.1 hfew, eq_comm]
  have hfew : constantCount ≤ 1024 := not_lt.1 hmany
  by_cases hlarge : globalLimit < globalCount
  · have hsmall : ¬ globalCount ≤ 4096 := not_le.2 hlarge
    rw [if_neg hmany, if_pos hlarge] at hload
    simp [hload, hfew, not_lt.2 hfew, hsmall, not_le.1 hsmall, eq_comm]
  · have hsmall : globalCount ≤ 4096 := not_lt.1 hlarge
    have hwrapped : (imageOf constantCount constants globalCount code).codeSize.toNat =
        code.length % 65536 := by simp [imageOf]
    rw [if_neg hmany, if_neg hlarge] at hload
    rw [hload]
    refine ⟨fun e => ?_, ?_, ?_⟩
    · simp [not_lt.2 hfew, not_lt.2 hsmall]
    · intro image himage
      cases himage
      exact ⟨rfl, rfl, hwrapped⟩
    -- a size of 65536 bytes is taken for zero
    · constructor
      · rintro ⟨image, himage, _, _, hsize⟩
        cases himage
        rw [hwrapped] at hsize
        omega
      · rintro ⟨_, _, hlt⟩
        exact ⟨_, rfl, rfl, rfl, hwrapped.trans (Nat.mod_eq_of_lt hlt)⟩

end ArmStudio.Machine.Image

namespace ArmStudio

open Script Code

/-- What a build leaves to the machine. A build that succeeds has at most 65536 bytes of code and at
most 16384 constants and globals. The machine refuses its byte file exactly if there are more than
1024 constants or, with fewer, more than 4096 globals; it takes the size of the code modulo 65536.
So it loads the file with the sizes of the program exactly if the program is within these limits. -/
theorem load_build_iff {fileName : String} {input : Option (List UInt8)} {build : Build}
    (hbuild : buildFile fileName input = .ok build) (hsuccess : build.success = true) :
    ∃ bytes text p symbols a s file, input = some bytes ∧ Text.Utf8.decode bytes = .ok text ∧
      Build.Stages (Text.Utf8.unifyLines text) p symbols a s ∧
      build.files.find? (stem fileName ++ ".byte") = some (.bytes file) ∧
      width (a.startUp ++ a.code) ≤ 65536 ∧ p.constantNames.length ≤ 16384 ∧
      p.variableNames.length ≤ 16384 ∧
      (∀ e, Machine.Image.load file = .error e ↔
        (1024 < p.constantNames.length ∧ e = .constantsTooLarge) ∨
          (p.constantNames.length ≤ 1024 ∧ 4096 < p.variableNames.length ∧ e = .globalsTooLarge)) ∧
      (∀ image, Machine.Image.load file = .ok image → image.constantCount = p.constantNames.length ∧
          image.globalCount = p.variableNames.length ∧
          image.codeSize.toNat = width (a.startUp ++ a.code) % 65536) ∧
      ((∃ image, Machine.Image.load file = .ok image ∧
          image.constantCount = p.constantNames.length ∧
          image.globalCount = p.variableNames.length ∧
          image.codeSize.toNat = width (a.startUp ++ a.code)) ↔
        p.constantNames.length ≤ 1024 ∧ p.variableNames.length ≤ 4096 ∧
          width (a.startUp ++ a.code) < 65536) := by
  cases input with
  | none =>
    -- without a file the build ends with a message
    cases hbuild
    cases hsuccess
  | some bytes =>
    obtain ⟨text, htext, hbuild⟩ := bind_eq_ok.1 hbuild
    cases hbuild
    obtain ⟨p, symbols, a, s, file, hstages, hfile, hsizes, hfind⟩ := Build.compile_success hsuccess
    obtain ⟨constants, code, hconsts, hcode, rfl⟩ := hstages.file hfile
    obtain ⟨_, _, hconstantSize, hglobalSize⟩ := hstages.counts
    obtain ⟨hprogramLimit, hconstantLimit, hglobalLimit⟩ := Build.Sizes.error?_eq_none hsizes
    -- what the build takes for the size of the program is that of its code
    simp only [Build.Sizes.of, Build.frameSize, hconstantSize, hglobalSize,
      Machine.Image.complete_header hconsts, List.length_append,
      Machine.Image.length_fileBody hconsts, Machine.Image.length_md5, hcode]
      at hprogramLimit hconstantLimit hglobalLimit
    refine ⟨bytes, text, p, symbols, a, s, _, rfl, htext, hstages, hfind, by omega, by omega,
      by omega, ?_⟩
    rw [← hcode]
    exact Machine.Image.load_complete_iff hconsts (by omega) (by omega) (by omega)

/-- The bytes of `const let c=1;let g=2;fn main(){}`. -/
def oneOfEach : List UInt8 :=
  [0x63, 0x6f, 0x6e, 0x73, 0x74, 0x20, 0x6c, 0x65, 0x74, 0x20, 0x63, 0x3d, 0x31, 0x3b, 0x6c, 0x65,
    0x74, 0x20, 0x67, 0x3d, 0x32, 0x3b, 0x66, 0x6e, 0x20, 0x6d, 0x61, 0x69, 0x6e, 0x28, 0x29, 0x7b,
    0x7d]

/-- The program is loaded with its one constant, its one global and 16 bytes of code. -/
theorem load_build_iff_oneOfEach :
    ∃ build text p symbols a s file image, buildFile "one.txt" (some oneOfEach) = .ok build ∧
      build.success = true ∧ Build.Stages text p symbols a s ∧
      build.files.find? "one.byte" = some (.bytes file) ∧
      Machine.Image.load file = .ok image ∧ image.constantCount = 1 ∧ image.globalCount = 1 ∧
      image.codeSize.toNat = 16 ∧ p.constantNames.length = 1 ∧ p.variableNames.length = 1 ∧
      width (a.startUp ++ a.code) = 16 := by
  have heval : (buildFile "one.txt" (some oneOfEach)).toOption.map (fun b =>
      (b.success, (b.files.find? "one.byte").bind fun c =>
        (Machine.Image.load c.toBytes).toOption.map fun i =>
          (i.constantCount, i.globalCount, i.codeSize.toNat))) = some (true, some (1, 1, 16)) := by
    decide +kernel
  obtain ⟨build, hres, hpair⟩ := Option.map_eq_some_iff.1 heval
  obtain ⟨hsuccess, hloaded⟩ := Prod.mk.inj hpair
  have hbuild := toOption_eq_some.1 hres
  obtain ⟨_, text, p, symbols, a, s, file, _, _, hstages, hfind, hwidth, _, _, _, hsizes, _⟩ :=
    load_build_iff hbuild hsuccess
  have hfile : build.files.find? "one.byte" = some (.bytes file) := hfind
  rw [hfile] at hloaded
  obtain ⟨image, himage, hcounts⟩ := Option.map_eq_some_iff.1 hloaded
  have hload : Machine.Image.load file = .ok image := toOption_eq_some.1 himage
  obtain ⟨hconsts, hrest⟩ := Prod.mk.inj hcounts
  obtain ⟨hglobs, hcode⟩ := Prod.mk.inj hrest
  obtain ⟨hc, hg, hw⟩ := hsizes image hload
  exact ⟨build, _, p, symbols, a, s, file, image, hbuild, hsuccess, hstages, hfile, hload, hconsts,
    hglobs, hcode, hc.symm.trans hconsts, hg.symm.trans hglobs, by omega⟩

end ArmStudio
