import ArmStudio.Proofs.RoundTrip

/-!
# The constants of a file

The number of the constants is followed by a word for each of them, in their order. Only integers
have a word: one floating-point constant anywhere among them, and there is no file.
-/

namespace ArmStudio.Code

open Script Machine.Image

lemma constantBytes_of_real {values x} (h : .real x ∈ values) :
    constantBytes values = .error .realConstant := by
  induction values with
  | nil => cases h
  | cons first rest ih =>
    cases hn : first.toInt? with
    | none => simp [constantBytes, hn]
    | some n =>
      rcases List.mem_cons.1 h with rfl | h
      · cases hn
      · simp [constantBytes, hn, ih h]

lemma exists_toInt? {values : List Value} (h : ∀ x, .real x ∉ values) :
    ∀ v ∈ values, ∃ n, v.toInt? = some n := by
  intro v hv
  cases v with
  | flag b => exact ⟨_, rfl⟩
  | int n => exact ⟨n, rfl⟩
  | real x => exact absurd hv (h x)

lemma complete_head (a : Assembly) (constants code : List UInt8) :
    ∃ size digest, size.length = 4 ∧ complete (a.head constants ++ code).toArray =
      (size ++ intBytes 2 a.constants.length) ++ constants ++
        (intBytes 2 a.globalSize ++ code ++ digest) := by
  -- the four bytes that are dropped keep the place of the size
  let size := intBytes 4 ((a.head constants ++ code).length + 16 : Int)
  let body := size ++ (a.head constants ++ code).drop 4
  refine ⟨size, Digest.md5 body, length_intBytes 4 _, ?_⟩
  have hbody : complete (a.head constants ++ code).toArray = body ++ Digest.md5 body := rfl
  rw [hbody]
  simp [body, Assembly.head]

/-- Instructions that fit, and whose labels were created, have a file exactly if no constant is a
floating-point number. Every constant then stands in its word, low byte first and modulo the width
of a word; behind them come the number of globals and the code. -/
theorem link_constantArea (a : Assembly) (labels : Labels)
    (hfit : ∀ i ∈ a.startUp ++ a.code, i.Fits)
    (hcreated : ∀ name ∈ marks (a.startUp ++ a.code), labels.places.contains name = true) :
    ((∀ x, .real x ∉ a.constants) → ∃ file, (link a labels).file = .ok file ∧
      (∀ k v, a.constants[k]? = some v → ∃ n, v.toInt? = some n ∧
        StandsAt file (6 + 4 * k) (intBytes 4 n) ∧
        numberOf file.toArray 4 (6 + 4 * k) = (n % 4294967296).toNat) ∧
      StandsAt file (6 + 4 * a.constants.length)
        (intBytes 2 a.globalSize ++ linkedCode labels (a.startUp ++ a.code))) ∧
    ∀ x, .real x ∈ a.constants → (link a labels).file = .error .realConstant := by
  constructor
  · intro hints
    obtain ⟨constants, hconsts, hbytes, hstands⟩ := constantBytes_of_ints (exists_toInt? hints)
    obtain ⟨size, digest, hsize, hfile⟩ :=
      complete_head a constants (linkedCode labels (a.startUp ++ a.code))
    have hfront : (size ++ intBytes 2 a.constants.length).length = 6 := by
      rw [List.length_append, hsize, length_intBytes]
    refine ⟨_, link_file_linkedCode hconsts hfit hcreated, ?_, ?_⟩
    · intro k v hk
      obtain ⟨n, hn⟩ := exists_toInt? hints v (List.mem_of_getElem? hk)
      have hat := hstands k v n hk hn (size ++ intBytes 2 a.constants.length)
        (intBytes 2 a.globalSize ++ linkedCode labels (a.startUp ++ a.code) ++ digest)
      rw [hfront, ← hfile] at hat
      refine ⟨n, hn, hat, ?_⟩
      rw [numberOf_intBytes hat, lowBytes_four]
    · have hat := standsAt_append (size ++ intBytes 2 a.constants.length ++ constants)
        (intBytes 2 a.globalSize ++ linkedCode labels (a.startUp ++ a.code)) digest
      rw [List.length_append, hfront, hbytes] at hat
      rw [hfile]
      simpa using hat
  · intro x hx
    simp [link, constantBytes_of_real hx]

/-- An integer that is too large for a word and a negative one have their words. With a
floating-point number behind them there is no file. -/
theorem link_constantArea_mixed :
    (∃ file, (link { countdown with constants := [.int 5000000000, .int (-2)] }
        countdownLabels).file = .ok file ∧
      StandsAt file 10 [0xfe, 0xff, 0xff, 0xff]) ∧
    (link { countdown with constants := [.int 5000000000, .int (-2), .real 1] }
      countdownLabels).file = .error .realConstant := by
  have hfit : ∀ i ∈ countdown.startUp ++ countdown.code, i.Fits :=
    fits_of_secondPass (show secondPass (fun _ => 0) _ = .ok _ from rfl)
  constructor
  · obtain ⟨file, hfile, hwords, -⟩ := (link_constantArea
      { countdown with constants := [.int 5000000000, .int (-2)] } countdownLabels hfit
      (by decide)).1 (by simp)
    obtain ⟨n, hn, hat, -⟩ := hwords 1 (.int (-2)) rfl
    cases hn
    exact ⟨file, hfile, hat⟩
  · exact (link_constantArea { countdown with constants := [.int 5000000000, .int (-2), .real 1] }
      countdownLabels hfit (by decide)).2 1 (by simp)

end ArmStudio.Code
