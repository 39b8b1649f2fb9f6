import RealMode.Proofs.PushedImages
import RealMode.Proofs.SegmentedAccess

/-! # The frame of an interrupt -/
namespace RealMode

namespace Flags

/-- POPF and IRET set bit 1, take the bits of flags from the image and keep all others. -/
theorem bitAt_setWord (f : Flags) (w : UInt16) {n : Nat} (hn : n < 32) :
    (f.setWord w).bitAt n =
      if n = 1 then true
      else if writableMask.toBitVec.getLsbD n then w.toBitVec.getLsbD n else f.bitAt n := by
  have hmask : ∀ n < 32, reservedMask.toBitVec.getLsbD n = decide (n = 1) := by decide
  rw [setWord, assign_eq_replace, bitAt_replace, bitAt_replace, if_pos rfl, hmask n hn,
    UInt16.toBitVec_toUInt32, BitVec.getLsbD_setWidth, decide_eq_true hn, Bool.true_and]
  by_cases hone : n = 1
  · simp only [hone, decide_true, ↓reduceIte]
  · simp only [hone, decide_false, Bool.false_eq_true, ↓reduceIte]

theorem get_eq_bitAt (f : Flags) (a : Flag) : f.get a = f.bitAt a.bit := f.get_eq_getLsbD a

theorem writable_bit (a : Flag) : writableMask.toBitVec.getLsbD a.bit := by
  cases a <;> decide

theorem get_setWord_word (f g : Flags) (a : Flag) : (f.setWord g.word).get a = g.get a := by
  have hlt : a.bit < 16 := by cases a <;> decide
  rw [get_eq_bitAt, get_eq_bitAt, bitAt_setWord _ _ a.bit_lt, if_neg (bit_ne_one a),
    if_pos (writable_bit a), getLsbD_word g hlt]

/-- Loading its own image undoes changes of flags if bit 1 is set. The other bits need not be
clear. -/
theorem setWord_word_of_bits {f g : Flags} (hreserved : g.bitAt 1)
    (hothers : ∀ n, (∀ a : Flag, a.bit ≠ n) → f.bitAt n = g.bitAt n) :
    f.setWord g.word = g := by
  apply ext_bitAt
  intro n hn
  rw [bitAt_setWord _ _ hn]
  by_cases hone : n = 1
  · subst hone
    rw [if_pos rfl, hreserved]
  · rw [if_neg hone]
    by_cases hwritable : writableMask.toBitVec.getLsbD n
    · have hlow : ∀ n < 32, writableMask.toBitVec.getLsbD n → n < 16 := by decide
      rw [if_pos hwritable, getLsbD_word g (hlow n hn hwritable)]
    · rw [if_neg hwritable]
      apply hothers
      rintro a rfl
      exact hwritable (writable_bit a)

theorem bitAt_set_of_ne (f : Flags) (a : Flag) (v : Bool) {n : Nat} (h : a.bit ≠ n) :
    (f.set a v).bitAt n = f.bitAt n := by
  rw [set, assign_eq_replace, bitAt_replace, if_neg]
  rw [a.toBitVec_mask, BitVec.getLsbD_twoPow]
  simp [h]

end Flags

namespace Cpu

variable {M H : Type} (c : Cpu M H)

def frame : List Nat :=
  (List.range 6).map fun i => physical c.regs.ss (c.regs.sp - UInt16.ofNat (i + 1))

theorem mem_frame_of_word {k : UInt16} (h : k = 2 ∨ k = 4 ∨ k = 6) :
    physical c.regs.ss (c.regs.sp - k) ∈ c.frame ∧
      physical c.regs.ss (c.regs.sp - k + 1) ∈ c.frame := by
  have hmem {i : Nat} (hi : i < 6) (o : UInt16) (ho : o = c.regs.sp - UInt16.ofNat (i + 1)) :
      physical c.regs.ss o ∈ c.frame := by
    subst ho
    exact List.mem_map_of_mem (List.mem_range.mpr hi)
  rcases h with rfl | rfl | rfl
  · exact ⟨hmem (i := 1) (by omega) _ rfl, hmem (i := 0) (by omega) _ (by grind)⟩
  · exact ⟨hmem (i := 3) (by omega) _ rfl, hmem (i := 2) (by omega) _ (by grind)⟩
  · exact ⟨hmem (i := 5) (by omega) _ rfl, hmem (i := 4) (by omega) _ (by grind)⟩

theorem lt_of_mem_frame {a : Nat} (h : a ∈ c.frame) : a < memorySize := by
  obtain ⟨i, -, rfl⟩ := List.mem_map.mp h
  exact physical_lt _ _

variable [Bus M]

theorem frame_atInstruction : c.atInstruction.frame = c.frame := by
  rw [frame, frame, regs_atInstruction]

theorem framed_eq (image : UInt16) : c.framed image =
    Bus.setWord (Bus.setWord (Bus.setWord c.memory c.regs.ss (c.regs.sp - 2) image)
      c.regs.ss (c.regs.sp - 4) c.regs.cs) c.regs.ss (c.regs.sp - 6) c.regs.ip := by
  have hcs : c.regs.sp - 2 - 2 = c.regs.sp - 4 := by grind
  have hip : c.regs.sp - 4 - 2 = c.regs.sp - 6 := by grind
  rw [← hip, ← hcs]
  rfl

theorem reaches_atService (vector : UInt8) : Bus.Reaches c.memory (c.atService vector).memory := by
  rw [memory_atService, framed_eq]
  exact ((Bus.Reaches.refl.setWord _ _ _).setWord _ _ _).setWord _ _ _

theorem regs_pushFrame (c : Cpu M H) :
    c.pushFrame.regs = { c.regs with sp := c.regs.sp - 6 } := by
  have h2 : c.regs.sp - 2 - 2 = c.regs.sp - 4 := by grind
  have h4 : c.regs.sp - 4 - 2 = c.regs.sp - 6 := by grind
  rw [← h4, ← h2]
  cases c
  rfl

variable [LawfulMemory M]

theorem read_framed (image : UInt16) {a : Nat} (ha : a < memorySize) (hout : a ∉ c.frame) :
    Bus.read (c.framed image) a = Bus.read c.memory a := by
  have hne {k : UInt16} (hk : k = 2 ∨ k = 4 ∨ k = 6) :
      a ≠ physical c.regs.ss (c.regs.sp - k) ∧ a ≠ physical c.regs.ss (c.regs.sp - k + 1) := by
    obtain ⟨hlow, hhigh⟩ := c.mem_frame_of_word hk
    exact ⟨fun h => hout (h ▸ hlow), fun h => hout (h ▸ hhigh)⟩
  obtain ⟨h2, h2'⟩ := hne (k := 2) (by simp)
  obtain ⟨h4, h4'⟩ := hne (k := 4) (by simp)
  obtain ⟨h6, h6'⟩ := hne (k := 6) (by simp)
  rw [framed_eq, Bus.read_setWord_of_ne _ _ ha h6 h6', Bus.read_setWord_of_ne _ _ ha h4 h4',
    Bus.read_setWord_of_ne _ _ ha h2 h2']

theorem getWord_framed (image : UInt16) :
    Bus.getWord (c.framed image) c.regs.ss (c.regs.sp - 6) = c.regs.ip ∧
      Bus.getWord (c.framed image) c.regs.ss (c.regs.sp - 4) = c.regs.cs ∧
      Bus.getWord (c.framed image) c.regs.ss (c.regs.sp - 2) = image := by
  rw [framed_eq]
  refine ⟨Bus.getWord_setWord _ _ _ _, ?_, ?_⟩
  · rw [Bus.getWord_setWord_of_apart _ _ (by grind) (by grind) (by grind), Bus.getWord_setWord]
  · rw [Bus.getWord_setWord_of_apart _ _ (by grind) (by grind) (by grind),
      Bus.getWord_setWord_of_apart _ _ (by grind) (by grind) (by grind), Bus.getWord_setWord]

variable {c} {d : Cpu M H} {image : UInt16}

omit [LawfulMemory M] in
theorem iret_eq (d : Cpu M H) : d.iret =
    { d with
      regs := { d.regs with
        sp := d.regs.sp + 2 + 2 + 2
        cs := Bus.getWord d.memory d.regs.ss (d.regs.sp + 2)
        ip := Bus.getWord d.memory d.regs.ss d.regs.sp }
      flags := d.flags.setWord (Bus.getWord d.memory d.regs.ss (d.regs.sp + 2 + 2)) } := by
  cases d
  rfl

/-- From the end of the frame an IRET goes back to where the frame was pushed, with the image of
the flags that is in it. -/
theorem iret_of_frame (hss : d.regs.ss = c.regs.ss) (hsp : d.regs.sp = c.regs.sp - 6)
    (hframe : ∀ a ∈ c.frame, Bus.read d.memory a = Bus.read (c.framed image) a) :
    d.iret = { d with regs := d.regs.putBack c.regs, flags := d.flags.setWord image } := by
  have hword {k : UInt16} (hk : k = 2 ∨ k = 4 ∨ k = 6) :
      Bus.getWord d.memory c.regs.ss (c.regs.sp - k) =
        Bus.getWord (c.framed image) c.regs.ss (c.regs.sp - k) := by
    obtain ⟨hlow, hhigh⟩ := c.mem_frame_of_word hk
    exact Bus.getWord_congr (hframe _ hlow) (hframe _ hhigh)
  obtain ⟨hip, hcs, hflags⟩ := c.getWord_framed image
  have h4 : c.regs.sp - 6 + 2 = c.regs.sp - 4 := by grind
  have h2 : c.regs.sp - 4 + 2 = c.regs.sp - 2 := by grind
  have h0 : c.regs.sp - 2 + 2 = c.regs.sp := by grind
  rw [iret_eq, hss, hsp, h4, h2, h0, hword (k := 6) (by simp), hword (k := 4) (by simp),
    hword (k := 2) (by simp), hip, hcs, hflags]
  rfl

end Cpu
end RealMode
