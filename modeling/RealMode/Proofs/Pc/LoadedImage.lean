import RealMode.Pc.Machine
import RealMode.Proofs.Pc.LawfulBoard
import RealMode.Proofs.SegmentedAccess

/-! # The image of a loaded program

The last two bytes of the longest images lie where the zero word for the stack goes.
-/
namespace RealMode.Pc

/-- The place of the word on the stack, counted from the start of the image. -/
def stackIndex : Nat := stackTop.toNat - entryOffset.toNat

theorem entryOffset_add_eq_stackTop_iff {i : Nat} (hi : i < imageLimit) :
    entryOffset + UInt16.ofNat i = stackTop ↔ i = stackIndex := by
  have htop : stackTop = entryOffset + UInt16.ofNat stackIndex := by decide
  rw [htop, offset_add_inj (Nat.lt_trans hi (by decide)) (by decide)]

theorem entryOffset_add_eq_stackTop_succ_iff {i : Nat} (hi : i < imageLimit) :
    entryOffset + UInt16.ofNat i = stackTop + 1 ↔ i = stackIndex + 1 := by
  have htop : stackTop + 1 = entryOffset + UInt16.ofNat (stackIndex + 1) := by decide
  rw [htop, offset_add_inj (Nat.lt_trans hi (by decide)) (by decide)]

theorem getByte_placeProgram (b : Board) (segment : UInt16) {p : Program}
    (hfit : p.image.size ≤ imageLimit) {i : Nat} (hi : i < p.image.size) :
    Bus.getByte (placeProgram b segment p) segment (entryOffset + UInt16.ofNat i) =
      if i < stackIndex then p.image[i] else 0 := by
  have hlimit : i < imageLimit := Nat.lt_of_lt_of_le hi hfit
  have hsize : p.image.size ≤ 0x10000 := Nat.le_trans hfit (by decide)
  rw [placeProgram, Bus.getByte_setWord, Bus.getByte_setBytes _ _ _ hsize hi]
  simp only [entryOffset_add_eq_stackTop_succ_iff hlimit, entryOffset_add_eq_stackTop_iff hlimit]
  have hlast : imageLimit = stackIndex + 2 := by decide
  by_cases hhigh : i = stackIndex + 1
  · rw [if_pos hhigh, if_neg (by omega)]
    rfl
  · rw [if_neg hhigh]
    by_cases hlow : i = stackIndex
    · rw [if_pos hlow, if_neg (by omega)]
      rfl
    · rw [if_neg hlow, if_pos (by omega)]

namespace Machine

variable {H : Type}

theorem imageFault?_eq_none {image : ByteArray} (hpos : 0 < image.size)
    (hfit : image.size ≤ imageLimit) : imageFault? image = none := by
  rw [imageFault?, if_neg (Nat.ne_of_gt hpos), if_neg (Nat.not_lt.mpr hfit)]

theorem size_le_of_imageFault {image : ByteArray} (h : imageFault? image = none) :
    image.size ≤ imageLimit := by
  by_cases hempty : image.size = 0
  · rw [hempty]
    exact Nat.zero_le _
  · rw [imageFault?, if_neg hempty] at h
    by_cases hlong : imageLimit < image.size
    · rw [if_pos hlong] at h
      exact nomatch h
    · exact Nat.not_lt.mp hlong

theorem load_of_imageFault {image : ByteArray} (h : imageFault? image = none) (m : Machine H)
    (tail : String) :
    load image tail m =
      .ok () ⟨startProgram m.cpu m.config.loadSegment ⟨image, tail⟩, m.config,
        some ⟨image, tail⟩⟩ := by
  unfold load
  rw [h]
  rfl

theorem load_eq_ok (m : Machine H) (tail : String) {image : ByteArray} (hpos : 0 < image.size)
    (hfit : image.size ≤ imageLimit) :
    load image tail m =
      .ok () ⟨startProgram m.cpu m.config.loadSegment ⟨image, tail⟩, m.config,
        some ⟨image, tail⟩⟩ := load_of_imageFault (imageFault?_eq_none hpos hfit) m tail

/-- The bytes of the segment in which an image is loaded, from the entry on. -/
def imageBytes (m : Machine H) (size : Nat) : ByteArray :=
  Bus.getBytes m.cpu.memory m.config.loadSegment entryOffset size

theorem size_imageBytes (m : Machine H) (size : Nat) : (m.imageBytes size).size = size :=
  Bus.size_getBytes _ _ _ _

theorem getElem_imageBytes_of_load {m k : Machine H} {tail : String} {image : ByteArray}
    (hpos : 0 < image.size) (hfit : image.size ≤ imageLimit) (hload : load image tail m = .ok () k)
    {i : Nat} (hi : i < image.size) (hi' : i < (k.imageBytes image.size).size) :
    (k.imageBytes image.size)[i] = if i < stackIndex then image[i] else 0 := by
  rw [load_eq_ok m tail hpos hfit] at hload
  cases hload
  refine (Bus.getElem_getBytes _ _ _ _ hi').trans ?_
  exact getByte_placeProgram m.cpu.memory m.config.loadSegment (p := ⟨image, tail⟩) hfit hi

/-- An image of an admitted size is loaded, and it stands in memory byte for byte exactly if
its bytes in the place of the stack's word, where it reaches so far, are zero. -/
theorem loaded_verbatim_iff (m : Machine H) (tail : String) {image : ByteArray}
    (hpos : 0 < image.size) (hfit : image.size ≤ imageLimit) :
    ∃ k, load image tail m = .ok () k ∧ k.config = m.config ∧
      (k.imageBytes image.size = image ↔
        ∀ (i : Nat) (hi : i < image.size), stackIndex ≤ i → image[i] = 0) := by
  obtain ⟨k, hload, hconfig⟩ : ∃ k, load image tail m = .ok () k ∧ k.config = m.config :=
    ⟨_, load_eq_ok m tail hpos hfit, rfl⟩
  refine ⟨k, hload, hconfig, ?_⟩
  have hsize := k.size_imageBytes image.size
  have hread := fun i hi => getElem_imageBytes_of_load (i := i) hpos hfit hload hi
  constructor
  · intro hsame i hi hstack
    have hbyte := hread i hi (by omega)
    rw [if_neg (Nat.not_lt.mpr hstack)] at hbyte
    simpa only [hsame] using hbyte
  · intro hzero
    apply ByteArray.ext_getElem hsize
    intro i hi hi'
    rw [hread i hi' hi]
    split
    next => rfl
    next hstack => exact (hzero i hi' (Nat.not_lt.mp hstack)).symm

def loadingAt (segment : UInt16) : Machine Service :=
  new { Config.standard with loadSegment := segment } .silent

def longestImage (fill last : UInt8) : ByteArray :=
  tabulate imageLimit fun i => if i < stackIndex then fill else last

theorem size_longestImage (fill last : UInt8) : (longestImage fill last).size = imageLimit :=
  size_tabulate _ _

theorem getElem_longestImage (fill last : UInt8) {i : Nat}
    (hi : i < (longestImage fill last).size) :
    (longestImage fill last)[i] = if i < stackIndex then fill else last :=
  getElem_tabulate _ _ i hi

theorem longest_zero_ended_verbatim :
    0 < (longestImage 0x90 0).size ∧ (longestImage 0x90 0).size ≤ imageLimit ∧
      ∃ k, load (longestImage 0x90 0) "/x" (loadingAt 0xFFFF) = .ok () k ∧
        k.imageBytes (longestImage 0x90 0).size = longestImage 0x90 0 := by
  have hpos : 0 < (longestImage 0x90 0).size := by rw [size_longestImage]; decide
  have hfit : (longestImage 0x90 0).size ≤ imageLimit := Nat.le_of_eq (size_longestImage _ _)
  obtain ⟨k, hload, -, hiff⟩ := loaded_verbatim_iff (loadingAt 0xFFFF) "/x" hpos hfit
  refine ⟨hpos, hfit, k, hload, hiff.mpr ?_⟩
  intro i hi hstack
  rw [getElem_longestImage, if_neg (Nat.not_lt.mpr hstack)]

/-- The end of the longest image is lost to the word on the stack. -/
theorem longest_image_cut :
    0 < (longestImage 0 0x90).size ∧ (longestImage 0 0x90).size ≤ imageLimit ∧
      ∃ k, load (longestImage 0 0x90) "" (loadingAt 0x0700) = .ok () k ∧
        k.imageBytes (longestImage 0 0x90).size ≠ longestImage 0 0x90 := by
  have hpos : 0 < (longestImage 0 0x90).size := by rw [size_longestImage]; decide
  have hfit : (longestImage 0 0x90).size ≤ imageLimit := Nat.le_of_eq (size_longestImage _ _)
  have hi : stackIndex < (longestImage 0 0x90).size := by rw [size_longestImage]; decide
  have hload := load_eq_ok (loadingAt 0x0700) "" hpos hfit
  refine ⟨hpos, hfit, _, hload, fun hsame => ?_⟩
  have hbyte := getElem_imageBytes_of_load hpos hfit hload hi (by rw [size_imageBytes]; exact hi)
  rw [if_neg (Nat.lt_irrefl _)] at hbyte
  simp only [hsame, getElem_longestImage, Nat.lt_irrefl, ↓reduceIte] at hbyte
  exact absurd hbyte (by decide)

end Machine
end RealMode.Pc
