import ArmStudio.Machine.Image
import ArmStudio.Proofs.Chunks
import ArmStudio.Proofs.Encoding

/-!
# Loading what was linked

What the machine reads back from a byte file.
-/

namespace ArmStudio.Machine

open Code List Digest

namespace Image

lemma byteOf_toArray (file : List UInt8) (i : Nat) : byteOf file.toArray i = (file[i]?).getD 0 := by
  simp [byteOf]

/-- Bytes stand in a file from an index on. -/
def StandsAt (file : List UInt8) (i : Nat) (bytes : List UInt8) : Prop :=
  ∀ k, k < bytes.length → file[i + k]? = bytes[k]?

lemma standsAt_append (before bytes behind : List UInt8) :
    StandsAt (before ++ bytes ++ behind) before.length bytes := by
  intro k hk
  rw [append_assoc, getElem?_append_right (by omega), Nat.add_sub_cancel_left,
    getElem?_append_left hk]

lemma StandsAt.split {file xs ys} {i : Nat} (h : StandsAt file i (xs ++ ys)) :
    StandsAt file i xs ∧ StandsAt file (i + xs.length) ys := by
  constructor
  · intro k hk
    rw [h k (by simp; omega), getElem?_append_left hk]
  · intro k hk
    rw [add_assoc, h _ (by simpa using hk), getElem?_append_right (by omega),
      Nat.add_sub_cancel_left]

/-- What is read where the low bytes of an integer were written. -/
def lowBytes : Nat → Int → Nat
  | 0, _ => 0
  | count + 1, n => (n % 256).toNat + 256 * lowBytes count (n / 256)

lemma lowBytes_one (n : Int) : lowBytes 1 n = (n % 256).toNat := by simp [lowBytes]

lemma lowBytes_two (n : Int) : lowBytes 2 n = (n % 65536).toNat := by
  simp only [lowBytes]
  omega

lemma lowBytes_one_of_lt {i : Nat} (h : i < 256) : lowBytes 1 i = i := by
  rw [lowBytes_one]
  omega

lemma lowBytes_two_of_lt {i : Nat} (h : i < 65536) : lowBytes 2 i = i := by
  rw [lowBytes_two]
  omega

lemma lowBytes_four (n : Int) : lowBytes 4 n = (n % 4294967296).toNat := by
  simp only [lowBytes]
  omega

variable {file bytes : List UInt8} {count a : Nat} {n : Int} {image : Image}

lemma numberOf_intBytes {i : Nat} (h : StandsAt file i (intBytes count n)) :
    numberOf file.toArray count i = lowBytes count n := by
  induction count generalizing i n with
  | zero => rfl
  | succ count ih =>
    have hfirst : file[i]? = some (n % 256).toNat.toUInt8 := by
      have := h 0 (by simp)
      simpa [intBytes] using this
    have hrest : StandsAt file (i + 1) (intBytes count (n / 256)) := by
      intro k hk
      have := h (k + 1) (by simpa using hk)
      simpa [intBytes, add_assoc, add_comm 1 k] using this
    have hbyte : (byteOf file.toArray i).toNat = (n % 256).toNat := by
      have hlt : (n % 256).toNat < 256 := by omega
      simp [byteOf_toArray, hfirst, Nat.mod_eq_of_lt hlt]
    rw [numberOf, ih hrest, hbyte, lowBytes]

lemma stretch_toArray {start : Nat} (h : StandsAt file start bytes) :
    stretch file.toArray start bytes.length = bytes := by
  apply ext_getElem?
  intro k
  by_cases hk : k < bytes.length
  · simp [stretch, byteOf_toArray, hk, h k hk]
  · simp [stretch, hk]

/-! ## Code of an image -/

/-- The program has these bytes at an address. -/
def Holds (image : Image) (a : Nat) (bytes : List UInt8) : Prop :=
  a + bytes.length ≤ image.codeSize.toNat ∧
    ∀ k, k < bytes.length → image.bytes[image.codeStart + a + k]? = bytes[k]?

lemma holds_append {xs ys} :
    image.Holds a (xs ++ ys) ↔ image.Holds a xs ∧ image.Holds (a + xs.length) ys := by
  constructor
  · rintro ⟨hle, hbytes⟩
    rw [length_append] at hle hbytes
    refine ⟨⟨by omega, ?_⟩, ⟨by omega, ?_⟩⟩
    · intro k hk
      rw [hbytes k (by omega), getElem?_append_left hk]
    · intro k hk
      have := hbytes (xs.length + k) (by omega)
      rw [getElem?_append_right (by omega), Nat.add_sub_cancel_left] at this
      rw [← this]
      congr 1
      omega
  · rintro ⟨⟨_, hxs⟩, ⟨hle, hys⟩⟩
    refine ⟨by rw [length_append]; omega, ?_⟩
    intro k hk
    rw [length_append] at hk
    by_cases hlt : k < xs.length
    · rw [hxs k hlt, getElem?_append_left hlt]
    · rw [getElem?_append_right (by omega), ← hys (k - xs.length) (by omega)]
      congr 1
      omega

lemma Holds.lt_codeSize {b : UInt8} (h : image.Holds a (b :: bytes)) :
    a < image.codeSize.toNat := by
  have := h.1
  simp only [length_cons] at this
  omega

lemma codeNumber_of_holds (h : image.Holds a (intBytes count n ++ bytes)) :
    image.codeNumber count a = lowBytes count n := by
  have hstands : StandsAt image.bytes.toList (image.codeStart + a) (intBytes count n) := by
    intro k hk
    have := (holds_append.1 h).1.2 k hk
    simpa using this
  simpa [codeNumber] using numberOf_intBytes hstands

/-! ## Loading -/

lemma length_md5 (m : List UInt8) : (md5 m).length = 16 := by
  simp [md5, State.bytes, leBytes]

lemma isIntact_md5 (body : List UInt8) :
    isIntact (body ++ md5 body).toArray (body.length + 16) = true := by
  have hbody : stretch (body ++ md5 body).toArray 0 body.length = body :=
    stretch_toArray (standsAt_append [] body (md5 body))
  have hdigest : stretch (body ++ md5 body).toArray body.length 16 = md5 body := by
    have h : StandsAt (body ++ md5 body) body.length (md5 body) := by
      simpa using standsAt_append body (md5 body) []
    simpa [length_md5] using stretch_toArray h
  simp [isIntact, digestSize, hbody, hdigest, Context.finish_update, length_md5]

variable (constantCount : Nat) (constants : List UInt8) (globalCount : Nat)

/-- The bytes in front of the code of a byte file whose size is not known yet. -/
def header : List UInt8 :=
  List.replicate 4 0xff ++ intBytes 2 constantCount ++ constants ++ intBytes 2 globalCount

/-- A byte file without its digest. -/
def fileBody (code : List UInt8) : List UInt8 :=
  intBytes 4 (8 + 4 * constantCount + code.length + 16 : Nat) ++ intBytes 2 constantCount ++
    constants ++ intBytes 2 globalCount ++ code

/-- The image of a file; the size of its code is kept modulo 65536. -/
def imageOf (code : List UInt8) : Image :=
  ⟨(fileBody constantCount constants globalCount code ++
    md5 (fileBody constantCount constants globalCount code)).toArray, constantCount,
    globalCount, 6 + 4 * constantCount + 2, code.length.toUInt16⟩

section

variable {constantCount globalCount : Nat} {constants code : List UInt8}

section

variable (h : constants.length = 4 * constantCount)

include h

lemma length_header :
    (header constantCount constants globalCount).length = 8 + 4 * constantCount := by
  simp [header, h]
  omega

lemma length_fileBody : (fileBody constantCount constants globalCount code).length =
      8 + 4 * constantCount + code.length := by
  simp [fileBody, h]
  omega

lemma complete_header : complete (header constantCount constants globalCount ++ code).toArray =
      fileBody constantCount constants globalCount code ++
        md5 (fileBody constantCount constants globalCount code) := by
  have hsize : (((header constantCount constants globalCount ++ code).toArray.size : Int) + 16) =
      ((8 + 4 * constantCount + code.length + 16 : Nat) : Int) := by
    rw [size_toArray, length_append, length_header h]
    rfl
  have hdrop : (header constantCount constants globalCount ++ code).toArray.toList.drop 4 =
      intBytes 2 constantCount ++ (constants ++ (intBytes 2 globalCount ++ code)) := by
    simp [header, List.replicate]
  simp only [complete, hsize, hdrop, fileBody, append_assoc]

end

variable (hconst : constants.length = 4 * constantCount)

include hconst

/-- The places of the parts. -/
lemma standsAt_fileBody (globalCount : Nat) (code digest : List UInt8) :
    let file := fileBody constantCount constants globalCount code ++ digest
    StandsAt file 0 (intBytes 4 (8 + 4 * constantCount + code.length + 16 : Nat)) ∧
      StandsAt file 4 (intBytes 2 constantCount) ∧
      StandsAt file (6 + 4 * constantCount) (intBytes 2 globalCount) ∧
      StandsAt file (6 + 4 * constantCount + 2) code := by
  intro file
  have hfile : StandsAt file 0 file := fun k _ => by rw [zero_add]
  simp only [file, fileBody, append_assoc] at hfile
  obtain ⟨hsize, hfile⟩ := hfile.split
  obtain ⟨hcount, hfile⟩ := hfile.split
  obtain ⟨hglobs, hcode⟩ := hfile.split.2.split
  simp only [length_intBytes, hconst, zero_add] at hcount hglobs hcode
  simpa only [file, fileBody, append_assoc] using ⟨hsize, hcount, hglobs, hcode.split.1⟩

lemma numberOf_size (hsize : 8 + 4 * constantCount + code.length + 16 < 4294967296)
    (digest : List UInt8) :
    numberOf (fileBody constantCount constants globalCount code ++ digest).toArray 4 0 =
      8 + 4 * constantCount + code.length + 16 := by
  rw [numberOf_intBytes (standsAt_fileBody hconst _ _ _).1, lowBytes_four]
  omega

/-- A completed file is refused for its constants or its globals, or else loaded. -/
theorem load_complete_cases (hcount : constantCount < 65536) (hglobs : globalCount < 65536)
    (hcode : code.length ≤ 65536) :
    load (complete (header constantCount constants globalCount ++ code).toArray) =
      if constantLimit < constantCount then .error .constantsTooLarge
      else if globalLimit < globalCount then .error .globalsTooLarge
      else .ok (imageOf constantCount constants globalCount code) := by
  rw [complete_header hconst, imageOf]
  have hintact := isIntact_md5 (fileBody constantCount constants globalCount code)
  rw [length_fileBody hconst] at hintact
  obtain ⟨digest, hdigest⟩ : ∃ digest,
      digest = md5 (fileBody constantCount constants globalCount code) := ⟨_, rfl⟩
  rw [← hdigest] at hintact ⊢
  have hcodeSize : (((8 + 4 * constantCount + code.length + 16 : Nat) -
      (6 + 4 * constantCount + 2 : Nat) - digestSize : Int) % 65536).toNat =
        code.length % 65536 := by
    simp only [digestSize]
    omega
  have hwrapped : (code.length % 65536).toUInt16 = code.length.toUInt16 :=
    UInt16.toNat.inj (by simp)
  have hcnt : ¬ 8 + 4 * constantCount + code.length + 16 < constantCount + 6 := by omega
  obtain ⟨-, hconsts, hvars, -⟩ := standsAt_fileBody hconst globalCount code digest
  have hsize : 8 + 4 * constantCount + code.length + 16 < 4294967296 := by omega
  simp only [load, numberOf_size hconst hsize, numberOf_intBytes hconsts, numberOf_intBytes hvars,
    lowBytes_two_of_lt hcount, lowBytes_two_of_lt hglobs, hintact, hcodeSize, hwrapped, hcnt,
    Bool.not_true, Bool.false_eq_true, if_false]

lemma load_complete (hcount : constantCount ≤ constantLimit)
    (hglobs : globalCount ≤ globalLimit) (hcode : code.length < 65536) :
    load (complete (header constantCount constants globalCount ++ code).toArray) =
        .ok (imageOf constantCount constants globalCount code) ∧
      (imageOf constantCount constants globalCount code).codeSize.toNat = code.length ∧
      (imageOf constantCount constants globalCount code).Holds 0 code := by
  have hsize : (imageOf constantCount constants globalCount code).codeSize.toNat = code.length := by
    simp [imageOf, Nat.mod_eq_of_lt hcode]
  refine ⟨?_, hsize, by rw [hsize]; omega, fun k hk => ?_⟩
  · rw [load_complete_cases hconst (hcount.trans_lt (by decide))
      (hglobs.trans_lt (by decide)) hcode.le, if_neg (not_lt.2 hcount),
      if_neg (not_lt.2 hglobs)]
  · simpa [imageOf] using (standsAt_fileBody hconst _ _ _).2.2.2 k hk

end

end Image

end ArmStudio.Machine
