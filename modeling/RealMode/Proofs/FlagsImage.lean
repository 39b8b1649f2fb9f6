import RealMode.Shift

/-! # The image of the flags

A flags register is well formed if bit 1 is set and no other bit is that is not a flag's.
-/
namespace RealMode

def FlagBits (mask : UInt32) : Prop := ∀ n, mask.toBitVec.getLsbD n → ∃ a : Flag, a.bit = n

def Flag.all : List Flag :=
  [carry, parity, auxiliary, zero, sign, trap, interrupt, direction, overflow]

theorem Flag.mem_all (a : Flag) : a ∈ all := by
  cases a <;> decide

theorem FlagBits.of_lt {mask : UInt32}
    (h : ∀ n < 32, mask.toBitVec.getLsbD n → n ∈ Flag.all.map Flag.bit) : FlagBits mask := by
  intro n hn
  by_cases hlt : n < 32
  · obtain ⟨a, -, ha⟩ := List.mem_map.mp (h n hlt hn)
    exact ⟨a, ha⟩
  · rw [BitVec.getLsbD_of_ge _ n (Nat.not_lt.mp hlt)] at hn
    exact nomatch hn

namespace Flags

/-- The bit at a place of the register, counted from the lowest. -/
def bitAt (f : Flags) (n : Nat) : Bool := f.bits.toBitVec.getLsbD n

/-- Bit 1 is set, and of the others only flags can be. -/
structure WellFormed (f : Flags) : Prop where
  reserved : f.bitAt 1
  others : ∀ n, f.bitAt n → n = 1 ∨ ∃ a : Flag, a.bit = n

theorem ext_bitAt {f g : Flags} (h : ∀ n < 32, f.bitAt n = g.bitAt n) : f = g := by
  have hbits : f.bits.toBitVec = g.bits.toBitVec := BitVec.eq_of_getLsbD_eq h
  cases f
  cases g
  exact congrArg Flags.mk (UInt32.toBitVec_inj.mp hbits)

theorem bitAt_of_ge (f : Flags) {n : Nat} (h : 32 ≤ n) : f.bitAt n = false :=
  BitVec.getLsbD_of_ge _ n h

theorem getLsbD_word (f : Flags) {n : Nat} (h : n < 16) :
    f.word.toBitVec.getLsbD n = f.bitAt n := by
  simp only [word, bitAt, UInt32.toBitVec_toUInt16, BitVec.getLsbD_setWidth, h, decide_true,
    Bool.true_and]

theorem bitAt_replace (f : Flags) (mask bits : UInt32) (n : Nat) :
    (f.replace mask bits).bitAt n =
      if mask.toBitVec.getLsbD n then bits.toBitVec.getLsbD n else f.bitAt n := by
  by_cases hlt : n < 32
  · simp only [bitAt, replace, UInt32.toBitVec_or, UInt32.toBitVec_and, UInt32.toBitVec_not,
      BitVec.getLsbD_or, BitVec.getLsbD_and, BitVec.getLsbD_not, hlt, decide_true, Bool.true_and]
    cases mask.toBitVec.getLsbD n <;> simp
  · have hge := Nat.not_lt.mp hlt
    rw [bitAt_of_ge _ hge, bitAt_of_ge _ hge, BitVec.getLsbD_of_ge _ n hge,
      BitVec.getLsbD_of_ge _ n hge]
    rfl

theorem assign_eq_replace (f : Flags) (mask : UInt32) (v : Bool) :
    f.assign mask v = f.replace mask (if v then mask else 0) := by
  cases v
  · simp [assign, replace]
  · apply ext_bitAt
    intro n hn
    rw [bitAt_replace]
    simp only [bitAt, assign, ↓reduceIte, UInt32.toBitVec_or, BitVec.getLsbD_or]
    cases mask.toBitVec.getLsbD n <;> simp

theorem flagBits_writableMask : FlagBits writableMask := .of_lt (by decide)

theorem flagBits_statusMask : FlagBits statusMask := .of_lt (by decide)

theorem flagBits_lowMask : FlagBits lowMask := .of_lt (by decide)

theorem bit_ne_one (a : Flag) : a.bit ≠ 1 := by
  cases a <;> decide

theorem wellFormed_reset : reset.WellFormed := by
  constructor
  · decide
  · intro n hn
    by_cases hlt : n < 32
    · have hone : ∀ n < 32, reset.bitAt n → n = 1 := by decide
      exact .inl (hone n hlt hn)
    · rw [bitAt_of_ge _ (Nat.not_lt.mp hlt)] at hn
      exact nomatch hn

namespace WellFormed

variable {f g : Flags} (h : f.WellFormed)
include h

theorem bitAt_eq_false {n : Nat} (hn : n ≠ 1) (ha : ∀ a : Flag, a.bit ≠ n) :
    f.bitAt n = false := by
  apply Bool.eq_false_iff.mpr
  intro hset
  rcases h.others n hset with h1 | ⟨a, hbit⟩
  · exact hn h1
  · exact ha a hbit

theorem replace {mask : UInt32} (hmask : FlagBits mask) (bits : UInt32) :
    (f.replace mask bits).WellFormed := by
  constructor
  · rw [bitAt_replace, if_neg]
    · exact h.reserved
    · intro hone
      obtain ⟨a, ha⟩ := hmask 1 hone
      exact bit_ne_one a ha
  · intro n hn
    rw [bitAt_replace] at hn
    split at hn
    next hflag => exact .inr (hmask n hflag)
    next => exact h.others n hn

theorem set (a : Flag) (v : Bool) : (f.set a v).WellFormed := by
  rw [Flags.set, assign_eq_replace]
  refine h.replace (fun n hn => ?_) _
  rw [a.toBitVec_mask, BitVec.getLsbD_twoPow] at hn
  exact ⟨a, by simpa using (of_decide_eq_true ((Bool.and_eq_true _ _).mp hn).2)⟩

theorem setLowByte (b : UInt8) : (f.setLowByte b).WellFormed := h.replace flagBits_lowMask _

theorem mergeStatus (bits : UInt32) : (f.mergeStatus bits).WellFormed :=
  h.replace flagBits_statusMask bits

theorem assign_reserved : f.assign reservedMask true = f := by
  apply ext_bitAt
  intro n hn
  have hmask : ∀ n < 32, reservedMask.toBitVec.getLsbD n → n = 1 := by decide
  rw [assign_eq_replace, bitAt_replace]
  split
  next hone =>
    obtain rfl := hmask n hn hone
    exact h.reserved.symm
  next => rfl

theorem setWord (w : UInt16) : (f.setWord w).WellFormed := by
  have hreplaced := h.replace flagBits_writableMask w.toUInt32
  rw [Flags.setWord, hreplaced.assign_reserved]
  exact hreplaced

theorem ofResult (w : Width) (r : Nat) : (f.ofResult w r).WellFormed :=
  ((h.set .zero _).set .sign _).set .parity _

theorem addCarry (w : Width) (a b : UInt16) (c : Bool) : (f.addCarry w a b c).2.WellFormed :=
  (((h.set .carry _).set .overflow _).set .auxiliary _).ofResult w _

theorem subBorrow (w : Width) (a b : UInt16) (c : Bool) : (f.subBorrow w a b c).2.WellFormed :=
  (((h.set .carry _).set .overflow _).set .auxiliary _).ofResult w _

theorem inc (w : Width) (a : UInt16) : (f.inc w a).2.WellFormed :=
  (h.addCarry w a 1 false).set .carry _

theorem dec (w : Width) (a : UInt16) : (f.dec w a).2.WellFormed :=
  (h.subBorrow w a 1 false).set .carry _

theorem bitwise (w : Width) (v : UInt16) : (f.bitwise w v).2.WellFormed :=
  ((h.set .carry _).set .overflow _).ofResult w _

theorem alu (op : AluOp) (w : Width) (a b : UInt16) : (op.apply f w a b).2.WellFormed := by
  cases op with
  | add | adc => exact h.addCarry w a b _
  | sub | cmp | sbb => exact h.subBorrow w a b _
  | and | or | xor => exact h.bitwise w _

theorem shift (op : ShiftOp) (w : Width) (v : UInt16) (count : Nat) :
    (op.apply f w v count).2.WellFormed := by
  have hoverflow (v : Bool) : (if count = 1 then f.set .overflow v else f).WellFormed := by
    split
    next => exact h.set .overflow v
    next => exact h
  unfold ShiftOp.apply
  dsimp only
  split
  next => exact (hoverflow _).set .carry _
  next => exact ((hoverflow _).set .carry _).ofResult w _

theorem word_and : f.word &&& 0xF02A = 0x0002 := by
  have hmask : ∀ n < 16, (0xF02A : UInt16).toBitVec.getLsbD n →
      n = 1 ∨ n ∉ Flag.all.map Flag.bit := by decide
  have htwo : ∀ n < 16, (0x0002 : UInt16).toBitVec.getLsbD n = decide (n = 1) := by decide
  apply UInt16.toBitVec_inj.mp
  apply BitVec.eq_of_getLsbD_eq
  intro n hn
  rw [UInt16.toBitVec_and, BitVec.getLsbD_and, f.getLsbD_word hn, htwo n hn]
  by_cases hone : n = 1
  · subst hone
    rw [h.reserved]
    rfl
  · rw [decide_eq_false hone]
    cases hset : (0xF02A : UInt16).toBitVec.getLsbD n with
    | false => exact Bool.and_false _
    | true =>
      have hnone := (hmask n hn hset).resolve_left hone
      rw [h.bitAt_eq_false hone fun a ha => hnone (List.mem_map.mpr ⟨a, a.mem_all, ha⟩)]
      rfl

/-- Loading the image of a well-formed register gives that register, whatever was there. -/
theorem setWord_word (hg : g.WellFormed) : f.setWord g.word = g := by
  rw [Flags.setWord, (h.replace flagBits_writableMask _).assign_reserved]
  apply ext_bitAt
  intro n hn
  rw [bitAt_replace]
  split
  next hwritable =>
    have hlow : ∀ n < 32, writableMask.toBitVec.getLsbD n → n < 16 := by decide
    have hlt := hlow n hn hwritable
    rw [UInt16.toBitVec_toUInt32, BitVec.getLsbD_setWidth, g.getLsbD_word hlt, decide_eq_true hn,
      Bool.true_and]
  next hwritable =>
    by_cases hone : n = 1
    · subst hone
      rw [h.reserved, hg.reserved]
    · have hother (a : Flag) : a.bit ≠ n := by
        rintro rfl
        apply hwritable
        cases a <;> decide
      rw [h.bitAt_eq_false hone hother, hg.bitAt_eq_false hone hother]

end WellFormed
end Flags
end RealMode
