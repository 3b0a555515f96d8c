import ArmStudio.Proofs.Loading

/-!
# Regions of a byte file

A byte file says how large it is and how many constants it has; where the number of globals, the
code and the digest stand follows from that. This module compares what a file declares with what it
holds.

Of the constants only the number is compared with the size of the file, not the bytes that they
take, and the size of the code is kept in sixteen bits. So not every file that is loaded is
consistent.
-/

namespace ArmStudio.Machine.Image

variable (file : List UInt8)

def declaredSize : Nat := numberOf file.toArray 4 0

def declared : Image where
  bytes := file.toArray
  constantCount := numberOf file.toArray 2 4
  globalCount := numberOf file.toArray 2 (6 + 4 * numberOf file.toArray 2 4)
  codeStart := 6 + 4 * numberOf file.toArray 2 4 + 2
  codeSize := ((declaredSize file - (6 + 4 * numberOf file.toArray 2 4 + 2 : Nat) - digestSize :
    Int) % 65536).toNat.toUInt16

/-- What is asked of a file before it is run. -/
structure Accepted (file : List UInt8) : Prop where
  intact : isIntact file.toArray (declaredSize file)
  fewConstants : (declared file).constantCount ≤ constantLimit
  counted : (declared file).constantCount + 6 ≤ declaredSize file
  fewGlobals : (declared file).globalCount ≤ globalLimit

/-- A file is loaded exactly if it is accepted, and then with the layout that it declares. -/
theorem load_eq_ok_iff {file} {image : Image} :
    load file = .ok image ↔ Accepted file ∧ declared file = image := by
  constructor
  · intro hload
    -- One test after the other is passed.
    simp only [load] at hload
    split at hload
    · cases hload
    rename_i hintact
    split at hload
    · cases hload
    rename_i hconsts
    split at hload
    · cases hload
    rename_i hcount
    split at hload
    · cases hload
    rename_i hglobs
    refine ⟨⟨?_, not_lt.1 hconsts, not_lt.1 hcount, not_lt.1 hglobs⟩, ?_⟩
    · simpa [declaredSize] using hintact
    · exact Except.ok.inj hload
  · rintro ⟨hacc, rfl⟩
    have hintact : isIntact file.toArray (numberOf file.toArray 4 0) = true := hacc.intact
    have hconsts : ¬ constantLimit < numberOf file.toArray 2 4 :=
      not_lt.2 hacc.fewConstants
    have hcount : ¬ numberOf file.toArray 4 0 < numberOf file.toArray 2 4 + 6 :=
      not_lt.2 hacc.counted
    have hglobs : ¬ globalLimit < numberOf file.toArray 2 (6 + 4 * numberOf file.toArray 2 4) :=
      not_lt.2 hacc.fewGlobals
    simp only [load, hintact, hconsts, hcount, hglobs, Bool.not_true, Bool.false_eq_true,
      if_false]
    rfl

lemma codeSize_declared : ((declared file).codeSize.toNat : Int) =
      (declaredSize file - (24 + 4 * (declared file).constantCount) : Int) % 65536 := by
  have hleft : (declaredSize file - (6 + 4 * numberOf file.toArray 2 4 + 2 : Nat) - digestSize :
      Int) = declaredSize file - (24 + 4 * numberOf file.toArray 2 4) := by
    simp only [digestSize]
    omega
  have hsmall : ((declaredSize file - (24 + 4 * numberOf file.toArray 2 4) : Int) % 65536).toNat <
      65536 := by
    omega
  simp only [declared, hleft]
  rw [Nat.toUInt16_eq, UInt16.toNat_ofNat_of_lt' hsmall]
  omega

/-! ## Consistent files -/

/-- The constants, the number of globals and the code stand in front of the digest. They begin
behind the size of the file and the number of constants. -/
def InFront (image : Image) : Prop :=
  ∀ i, 6 ≤ i → i < image.codeStart + image.codeSize.toNat → i + digestSize < image.bytes.size

/-- Of a file that starts with its own size and is loaded, only the number of constants is bounded:
by 1024 and by the number of bytes behind it. All that the machine reads of the file stands in front
of the digest exactly if the constants and the number of globals have room there. The regions and
the digest make up the whole file exactly if, besides, the code takes less than 65536 bytes. -/
theorem regions_iff (file : List UInt8) (image : Image)
    (hsize : numberOf file.toArray 4 0 = file.length) (hload : load file = .ok image) :
    image.constantCount ≤ 1024 ∧ image.constantCount + 6 ≤ file.length ∧
      (image.InFront ↔ 24 + 4 * image.constantCount ≤ file.length) ∧
      (8 + 4 * image.constantCount + image.codeSize.toNat + 16 = file.length ↔
        24 + 4 * image.constantCount ≤ file.length ∧
          file.length < 65536 + (24 + 4 * image.constantCount)) := by
  obtain ⟨hacc, rfl⟩ := load_eq_ok_iff.1 hload
  have hcode := codeSize_declared file
  have hdecl : declaredSize file = file.length := hsize
  rw [hdecl] at hcode
  have hcnt := hacc.counted
  rw [hdecl] at hcnt
  have hstart : (declared file).codeStart = 8 + 4 * (declared file).constantCount := by
    simp only [declared]
    omega
  have hbytes : (declared file).bytes.size = file.length := by simp [declared]
  refine ⟨hacc.fewConstants, hcnt, ?_, ?_⟩
  · constructor
    · intro hfront
      -- The last byte of the number of globals is the last one in front of the code.
      have hlast := hfront (7 + 4 * (declared file).constantCount) (by omega) (by omega)
      rw [hbytes] at hlast
      simp only [digestSize] at hlast
      omega
    · intro hroom i _ hi
      rw [hbytes]
      simp only [digestSize]
      omega
  · omega

/-- A file of 30 bytes that declares four constants. They reach into the digest, as does the number
of globals, and the size of the code has wrapped around. -/
def overlapping : List UInt8 :=
  [0x1e, 0, 0, 0, 4, 0, 0x8a, 0x58, 0x0f, 0, 0, 0, 0, 0, 0x58, 0x5a, 0xf9, 0x5c, 0x66, 0x12, 0xcb,
    0x31, 0x03, 0, 0x01, 0xce, 0x27, 0x79, 0x53, 0x92]

/-- The file is loaded, though it is not consistent. -/
theorem regions_iff_overlapping : numberOf overlapping.toArray 4 0 = overlapping.length ∧
      ∃ image, load overlapping = .ok image ∧ image.constantCount = 4 ∧
        image.codeSize.toNat = 65526 ∧ ¬ image.InFront ∧
        ¬ 8 + 4 * image.constantCount + image.codeSize.toNat + 16 = overlapping.length := by
  have hsize : numberOf overlapping.toArray 4 0 = overlapping.length := by decide
  have hloads : (load overlapping).toOption.map (fun i => (i.constantCount, i.codeSize.toNat)) =
      some (4, 65526) := by
    decide +kernel
  rcases hload : load overlapping with _ | image
  · simp [hload] at hloads
  · obtain ⟨hcount, hcode⟩ : image.constantCount = 4 ∧ image.codeSize.toNat = 65526 := by
      simpa [hload] using hloads
    obtain ⟨_, _, hfront, hexact⟩ := regions_iff overlapping image hsize hload
    have hlen : overlapping.length = 30 := rfl
    refine ⟨hsize, image, rfl, hcount, hcode, ?_, ?_⟩
    · rw [hfront, hcount]
      omega
    · rw [hexact, hcount]
      omega

end ArmStudio.Machine.Image
