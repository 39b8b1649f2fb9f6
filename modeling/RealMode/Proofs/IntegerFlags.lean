import Mathlib.Algebra.Ring.Int.Defs
import Mathlib.Algebra.Ring.Nat
import RealMode.Execute

/-! # Flags and the integers -/
namespace RealMode

/-- The integers that `bits` bits hold in two's complement. -/
def FitsSigned (bits : Nat) (z : Int) : Prop := -2 ^ (bits - 1) ≤ z ∧ z < 2 ^ (bits - 1)

instance (bits : Nat) (z : Int) : Decidable (FitsSigned bits z) :=
  inferInstanceAs (Decidable (_ ∧ _))

def ones (n : Nat) : Nat := (List.range 8).countP n.testBit

theorem ones_mod (n : Nat) : ones (n % 256) = ones n := by
  refine List.countP_congr fun i hi => ?_
  have hlt := List.mem_range.mp hi
  rw [show 256 = 2 ^ 8 by rfl, Nat.testBit_mod_two_pow]
  simp [hlt]

theorem evenParity_iff (b : UInt8) : evenParity b ↔ ones b.toNat % 2 = 0 := by
  rw [evenParity, ones, List.countP_eq_length_filter, beq_iff_eq]

/-- The places where a result is not the exclusive or of its operands: a carry or a borrow has
come in there. -/
def carries (a b r : Nat) : Nat := a ^^^ b ^^^ r

theorem testBit_carries (a b r i : Nat) :
    (carries a b r).testBit i ↔ (a / 2 ^ i + b / 2 ^ i + r / 2 ^ i) % 2 = 1 := by
  rw [carries, Nat.testBit_xor, Nat.testBit_xor]
  simp only [Nat.testBit_eq_decide_div_mod_eq]
  have ha := Nat.mod_two_eq_zero_or_one (a / 2 ^ i)
  have hb := Nat.mod_two_eq_zero_or_one (b / 2 ^ i)
  have hr := Nat.mod_two_eq_zero_or_one (r / 2 ^ i)
  rcases ha with ha | ha <;> rcases hb with hb | hb <;> rcases hr with hr | hr <;>
    simp [Nat.add_mod, ha, hb, hr]

namespace Width

variable (w : Width)

theorem modulus_eq_two_pow : w.modulus = 2 ^ w.bits := by
  cases w <;> rfl

theorem bits_pos : 0 < w.bits := by
  cases w <;> decide

theorem toNat_ofNat_of_lt {r : Nat} (h : r < w.modulus) : (UInt16.ofNat r).toNat = r := by
  rw [UInt16.toNat_ofNat']
  exact Nat.mod_eq_of_lt (by cases w <;> simp only [modulus] at h <;> omega)

theorem low_ofNat_of_lt {r : Nat} (h : r < w.modulus) : w.low (UInt16.ofNat r) = r := by
  rw [low, w.toNat_ofNat_of_lt h]
  exact Nat.mod_eq_of_lt h

theorem signed_eq_bmod (v : UInt16) : w.signed v = Int.bmod (w.low v) w.modulus := by
  rw [signed, ← Int.emod_bmod]
  rfl

theorem signed_cases (v : UInt16) :
    (w.low v < w.modulus / 2 ∧ w.signed v = w.low v) ∨
      (w.modulus / 2 ≤ w.low v ∧ w.signed v = (w.low v : Int) - w.modulus) := by
  have hv := w.low_lt v
  have heven : w.modulus % 2 = 0 := by cases w <;> rfl
  rw [signed_eq_bmod]
  by_cases htop : w.low v < w.modulus / 2
  · left
    refine ⟨htop, Int.bmod_eq_of_le ?_ ?_⟩ <;> omega
  · right
    refine ⟨by omega, ?_⟩
    rw [← Int.sub_bmod_right]
    refine Int.bmod_eq_of_le ?_ ?_ <;> omega

theorem signed_inj {a b : UInt16} : w.signed a = w.signed b ↔ w.low a = w.low b := by
  have ha := w.low_lt a
  have hb := w.low_lt b
  have hsa := w.signed_cases a
  have hsb := w.signed_cases b
  omega

theorem negative_of_lt {n : Nat} (h : n < w.modulus) : w.negative n ↔ w.modulus / 2 ≤ n := by
  rw [negative, Nat.mod_eq_of_lt h, decide_eq_true_eq]

end Width

namespace Flags

structure Describes (w : Width) (r : UInt16) (f : Flags) : Prop where
  zero : f.get .zero ↔ r = 0
  sign : f.get .sign ↔ w.signed r < 0
  parity : f.get .parity ↔ ones r.toNat % 2 = 0

/-- The carries within the sum `a + b + c` in 32 bits. -/
def sumCarries (w : Width) (a b : UInt16) (c : Nat) : Nat :=
  carries (w.low a) (w.low b) (w.low a + w.low b + c)

def differenceBorrows (w : Width) (a b : UInt16) (c : Nat) : Nat :=
  carries (w.low a) (w.low b) (2 ^ 32 + w.low a - (w.low b + c))

/-- OF tells whether exactly one of the sign and the place above it took a carry, AF whether the
place above the low four bits did. -/
structure ShowsCarries (w : Width) (n : Nat) (f : Flags) : Prop where
  overflow : f.get .overflow ↔ ¬ (n.testBit (w.bits - 1) ↔ n.testBit w.bits)
  auxiliary : f.get .auxiliary ↔ n.testBit 4

/-- The value and the flags of `a + b + c`, but for CF. -/
structure IsSum (w : Width) (a b : UInt16) (c : Nat) (p : UInt16 × Flags) : Prop where
  value : p.1.toNat = (w.low a + w.low b + c) % 2 ^ w.bits
  overflow : p.2.get .overflow ↔ ¬ FitsSigned w.bits (w.signed a + w.signed b + c)
  auxiliary : p.2.get .auxiliary ↔ 16 ≤ w.low a % 16 + w.low b % 16 + c
  carried : p.2.ShowsCarries w (sumCarries w a b c)
  described : p.2.Describes w p.1

/-- The value and the flags of `a - b - c`, but for CF. -/
structure IsDifference (w : Width) (a b : UInt16) (c : Nat) (p : UInt16 × Flags) : Prop where
  value : (p.1.toNat : Int) = ((w.low a : Int) - w.low b - c) % 2 ^ w.bits
  overflow : p.2.get .overflow ↔ ¬ FitsSigned w.bits (w.signed a - w.signed b - c)
  auxiliary : p.2.get .auxiliary ↔ w.low a % 16 < w.low b % 16 + c
  borrowed : p.2.ShowsCarries w (differenceBorrows w a b c)
  described : p.2.Describes w p.1

variable (f : Flags) (w : Width) (a b : UInt16)

theorem describes_ofResult {r : Nat} (h : r < w.modulus) :
    (f.ofResult w r).Describes w (UInt16.ofNat r) := by
  have hr := w.toNat_ofNat_of_lt h
  constructor
  · rw [← UInt16.toNat_inj, hr]
    simp [ofResult, Nat.mod_eq_of_lt h]
  · have hsign : (f.ofResult w r).get .sign = w.negative r := by simp [ofResult]
    have hsigned := w.signed_cases (UInt16.ofNat r)
    rw [w.low_ofNat_of_lt h] at hsigned
    rw [hsign, w.negative_of_lt h]
    omega
  · rw [hr, ← ones_mod r]
    simp [ofResult, evenParity_iff]

theorem carry_addCarry (c : Bool) :
    (f.addCarry w a b c).2.get .carry ↔ 2 ^ w.bits ≤ w.low a + w.low b + c.toNat := by
  simp [addCarry, ofResult, w.modulus_eq_two_pow]

theorem overflow_addCarry (c : Bool) :
    (f.addCarry w a b c).2.get .overflow ↔
      (w.negative (w.low a) ↔ w.negative (w.low b)) ∧
        ¬ (w.negative (w.low a) ↔
          w.negative ((w.low a + w.low b + c.toNat) % w.modulus)) := by
  simp [addCarry, ofResult]

theorem auxiliary_addCarry (c : Bool) :
    (f.addCarry w a b c).2.get .auxiliary ↔ 16 ≤ w.low a % 16 + w.low b % 16 + c.toNat := by
  simp [addCarry, ofResult]

theorem showsCarries_addCarry (c : Bool) :
    (f.addCarry w a b c).2.ShowsCarries w (sumCarries w a b c.toNat) := by
  have ha := w.low_lt a
  have hb := w.low_lt b
  have hc := c.toNat_le
  have hr := Nat.mod_lt (w.low a + w.low b + c.toNat) w.modulus_pos
  constructor
  · rw [overflow_addCarry, sumCarries, testBit_carries, testBit_carries, w.negative_of_lt ha,
      w.negative_of_lt hb, w.negative_of_lt hr]
    cases w <;> simp only [Width.modulus, Width.bits] at * <;> omega
  · rw [auxiliary_addCarry, sumCarries, testBit_carries]
    omega

theorem isSum_addCarry (c : Bool) : IsSum w a b c.toNat (f.addCarry w a b c) := by
  have ha := w.low_lt a
  have hb := w.low_lt b
  have hc := c.toNat_le
  have hr := Nat.mod_lt (w.low a + w.low b + c.toNat) w.modulus_pos
  have hvalue : (f.addCarry w a b c).1.toNat = (w.low a + w.low b + c.toNat) % w.modulus :=
    w.toNat_ofNat_of_lt hr
  constructor
  · rw [hvalue, w.modulus_eq_two_pow]
  · have hsa := w.signed_cases a
    have hsb := w.signed_cases b
    rw [overflow_addCarry, w.negative_of_lt ha, w.negative_of_lt hb, w.negative_of_lt hr,
      FitsSigned]
    cases w <;> simp only [Width.modulus, Width.bits] at * <;> omega
  · exact f.auxiliary_addCarry w a b c
  · exact f.showsCarries_addCarry w a b c
  · exact describes_ofResult _ w hr

theorem carry_subBorrow (c : Bool) :
    (f.subBorrow w a b c).2.get .carry ↔ w.low a < w.low b + c.toNat := by
  simp [subBorrow, ofResult]

theorem overflow_subBorrow (c : Bool) :
    (f.subBorrow w a b c).2.get .overflow ↔
      ¬ (w.negative (w.low a) ↔ w.negative (w.low b)) ∧
        ¬ (w.negative (w.low a) ↔
          w.negative ((w.low a + w.modulus - (w.low b + c.toNat)) % w.modulus)) := by
  simp [subBorrow, ofResult]

theorem auxiliary_subBorrow (c : Bool) :
    (f.subBorrow w a b c).2.get .auxiliary ↔ w.low a % 16 < w.low b % 16 + c.toNat := by
  simp [subBorrow, ofResult]

theorem showsCarries_subBorrow (c : Bool) :
    (f.subBorrow w a b c).2.ShowsCarries w (differenceBorrows w a b c.toNat) := by
  have ha := w.low_lt a
  have hb := w.low_lt b
  have hc := c.toNat_le
  have hr := Nat.mod_lt (w.low a + w.modulus - (w.low b + c.toNat)) w.modulus_pos
  constructor
  · rw [overflow_subBorrow, differenceBorrows, testBit_carries, testBit_carries,
      w.negative_of_lt ha, w.negative_of_lt hb, w.negative_of_lt hr]
    cases w <;> simp only [Width.modulus, Width.bits] at * <;> omega
  · rw [auxiliary_subBorrow, differenceBorrows, testBit_carries]
    cases w <;> simp only [Width.modulus] at * <;> omega

theorem isDifference_subBorrow (c : Bool) :
    IsDifference w a b c.toNat (f.subBorrow w a b c) := by
  have ha := w.low_lt a
  have hb := w.low_lt b
  have hc := c.toNat_le
  have hr := Nat.mod_lt (w.low a + w.modulus - (w.low b + c.toNat)) w.modulus_pos
  have hvalue : (f.subBorrow w a b c).1.toNat =
      (w.low a + w.modulus - (w.low b + c.toNat)) % w.modulus :=
    w.toNat_ofNat_of_lt hr
  constructor
  · rw [hvalue]
    cases w <;> simp only [Width.modulus, Width.bits] at * <;> omega
  · have hsa := w.signed_cases a
    have hsb := w.signed_cases b
    rw [overflow_subBorrow, w.negative_of_lt ha, w.negative_of_lt hb, w.negative_of_lt hr,
      FitsSigned]
    cases w <;> simp only [Width.modulus, Width.bits] at * <;> omega
  · exact f.auxiliary_subBorrow w a b c
  · exact f.showsCarries_subBorrow w a b c
  · exact describes_ofResult _ w hr

/-- The sign of a difference is SF where the difference fits, and the opposite where it does
not. -/
theorem IsDifference.sign_ne_overflow {w : Width} {a b : UInt16} {c : Nat} {p : UInt16 × Flags}
    (h : IsDifference w a b c p) (hc : c ≤ 1) :
    p.2.get .sign ≠ p.2.get .overflow ↔ w.signed a - w.signed b - c < 0 := by
  have ha := w.low_lt a
  have hb := w.low_lt b
  have hsa := w.signed_cases a
  have hsb := w.signed_cases b
  have hsr := w.signed_cases p.1
  have hr := h.value
  rw [Ne, Bool.eq_iff_iff, h.described.sign, h.overflow, FitsSigned]
  rw [Width.low] at hsr
  cases w <;> simp only [Width.modulus, Width.bits] at * <;> omega

section Carry

variable {w : Width} {a b : UInt16} {c : Nat} {r : UInt16} {g : Flags} (v : Bool)

theorem Describes.set_carry (h : g.Describes w r) : (g.set .carry v).Describes w r := by
  obtain ⟨hzero, hsign, hparity⟩ := h
  constructor <;> simpa

theorem ShowsCarries.set_carry {n : Nat} (h : g.ShowsCarries w n) :
    (g.set .carry v).ShowsCarries w n := by
  obtain ⟨hover, haux⟩ := h
  exact ⟨by simpa using hover, by simpa using haux⟩

theorem IsSum.set_carry (h : IsSum w a b c (r, g)) : IsSum w a b c (r, g.set .carry v) := by
  obtain ⟨hvalue, hover, haux, hcarried, hdescribed⟩ := h
  exact ⟨hvalue, by simpa using hover, by simpa using haux, hcarried.set_carry v,
    hdescribed.set_carry v⟩

theorem IsDifference.set_carry (h : IsDifference w a b c (r, g)) :
    IsDifference w a b c (r, g.set .carry v) := by
  obtain ⟨hvalue, hover, haux, hborrowed, hdescribed⟩ := h
  exact ⟨hvalue, by simpa using hover, by simpa using haux, hborrowed.set_carry v,
    hdescribed.set_carry v⟩

end Carry

def neg (f : Flags) (w : Width) (a : UInt16) : UInt16 × Flags := f.sub w 0 a

end Flags

/-- What a condition says of two operands that have been compared. -/
def Condition.Relates (w : Width) (a b : UInt16) : Condition → Prop
  | .b => w.low a < w.low b
  | .ae => w.low b ≤ w.low a
  | .be => w.low a ≤ w.low b
  | .a => w.low b < w.low a
  | .e => w.low a = w.low b
  | .ne => w.low a ≠ w.low b
  | .l => w.signed a < w.signed b
  | .ge => w.signed b ≤ w.signed a
  | .le => w.signed a ≤ w.signed b
  | .g => w.signed b < w.signed a
  | .o => ¬ FitsSigned w.bits (w.signed a - w.signed b)
  | .no => FitsSigned w.bits (w.signed a - w.signed b)
  | .s => w.signed (a - b) < 0
  | .ns => 0 ≤ w.signed (a - b)
  | .p => ones (a - b).toNat % 2 = 0
  | .np => ones (a - b).toNat % 2 = 1

namespace Flags

section Compared

variable (f : Flags) (w : Width) (a b : UInt16)

theorem isDifference_sub : IsDifference w a b 0 (f.sub w a b) :=
  f.isDifference_subBorrow w a b false

theorem carry_sub : (f.sub w a b).2.get .carry ↔ w.low a < w.low b :=
  f.carry_subBorrow w a b false

theorem zero_sub : (f.sub w a b).2.get .zero ↔ w.low a = w.low b := by
  have h := f.isDifference_sub w a b
  have hvalue := h.value
  have ha := w.low_lt a
  have hb := w.low_lt b
  rw [h.described.zero, ← UInt16.toNat_inj, UInt16.toNat_zero]
  cases w <;> simp only [Width.modulus, Width.bits] at * <;> omega

theorem low_sub : w.low (f.sub w a b).1 = w.low (a - b) := by
  have hvalue := (f.isDifference_sub w a b).value
  have ha := a.toNat_lt
  have hb := b.toNat_lt
  simp only [Width.low, UInt16.toNat_sub] at *
  cases w <;> simp only [Width.modulus, Width.bits] at * <;> omega

theorem less_sub :
    (f.sub w a b).2.get .sign ≠ (f.sub w a b).2.get .overflow ↔ w.signed a < w.signed b := by
  rw [(f.isDifference_sub w a b).sign_ne_overflow (Nat.zero_le 1)]
  omega

theorem not_less_sub :
    (f.sub w a b).2.get .sign = (f.sub w a b).2.get .overflow ↔ w.signed b ≤ w.signed a := by
  rw [← Decidable.not_iff_not, ← ne_eq, less_sub, Int.not_le]

theorem overflow_sub :
    (f.sub w a b).2.get .overflow ↔ ¬ FitsSigned w.bits (w.signed a - w.signed b) := by
  simpa using (f.isDifference_sub w a b).overflow

theorem sign_sub : (f.sub w a b).2.get .sign ↔ w.signed (a - b) < 0 := by
  rw [(f.isDifference_sub w a b).described.sign, w.signed_eq_bmod, low_sub, ← w.signed_eq_bmod]

theorem parity_sub : (f.sub w a b).2.get .parity ↔ ones (a - b).toNat % 2 = 0 := by
  have hlow : (f.sub w a b).1.toNat % 256 = (a - b).toNat % 256 := by
    have h := f.low_sub w a b
    cases w <;> simp only [Width.low, Width.modulus] at h <;> omega
  rw [(f.isDifference_sub w a b).described.parity, ← ones_mod, hlow, ones_mod]

theorem holds_sub (k : Condition) : (f.sub w a b).2.holds k ↔ k.Relates w a b := by
  have hzero := f.zero_sub w a b
  have hless := f.less_sub w a b
  have hnotless := f.not_less_sub w a b
  cases k with
  | o => exact f.overflow_sub w a b
  | b => exact f.carry_sub w a b
  | e => exact hzero
  | s => exact f.sign_sub w a b
  | p => exact f.parity_sub w a b
  | l => exact bne_iff_ne.trans hless
  | ge => exact beq_iff_eq.trans hnotless
  | le =>
    simp only [holds, Condition.Relates, Bool.or_eq_true, bne_iff_ne, hzero, hless,
      ← w.signed_inj]
    omega
  | g =>
    simp only [holds, Condition.Relates, Bool.and_eq_true, Bool.not_eq_true', ← Bool.not_eq_true,
      beq_iff_eq, hzero, hnotless, ← w.signed_inj]
    omega
  | no | ne =>
    simp only [holds, Condition.Relates, Bool.not_eq_true', ← Bool.not_eq_true, hzero,
      f.overflow_sub, ne_eq, Decidable.not_not]
  | ae | be | a | ns | np =>
    simp only [holds, Condition.Relates, Bool.not_eq_true', Bool.or_eq_true, Bool.and_eq_true,
      ← Bool.not_eq_true, f.carry_sub, hzero, f.sign_sub, f.parity_sub]
    omega

end Compared

variable {M H : Type} [Bus M] [HostService M H]

/-- Sums, differences and comparisons of any operands, and each condition after a comparison,
agree with integer arithmetic. -/
theorem arithmetic_agrees_with_integers (f : Flags) (w : Width) (a b : UInt16) (i : Instruction) :
    (IsSum w a b 0 (AluOp.add.apply f w a b) ∧
      ((AluOp.add.apply f w a b).2.get .carry ↔ 2 ^ w.bits ≤ w.low a + w.low b)) ∧
    (IsSum w a b (f.get .carry).toNat (AluOp.adc.apply f w a b) ∧
      ((AluOp.adc.apply f w a b).2.get .carry ↔
        2 ^ w.bits ≤ w.low a + w.low b + (f.get .carry).toNat)) ∧
    (IsSum w a 1 0 (f.inc w a) ∧ (f.inc w a).2.get .carry = f.get .carry) ∧
    (IsDifference w a b 0 (AluOp.sub.apply f w a b) ∧
      ((AluOp.sub.apply f w a b).2.get .carry ↔ w.low a < w.low b)) ∧
    (IsDifference w a b (f.get .carry).toNat (AluOp.sbb.apply f w a b) ∧
      ((AluOp.sbb.apply f w a b).2.get .carry ↔
        w.low a < w.low b + (f.get .carry).toNat)) ∧
    (IsDifference w 0 b 0 (f.neg w b) ∧ ((f.neg w b).2.get .carry ↔ 0 < w.low b)) ∧
    ({ i with op := .neg }.execute : Exec M H Unit) = { i with op := .neg }.update Flags.neg ∧
    (IsDifference w a 1 0 (f.dec w a) ∧ (f.dec w a).2.get .carry = f.get .carry) ∧
    (IsDifference w a b 0 (AluOp.cmp.apply f w a b) ∧
      ((AluOp.cmp.apply f w a b).2.get .carry ↔ w.low a < w.low b)) ∧
    ∀ k : Condition, (AluOp.cmp.apply f w a b).2.holds k ↔ k.Relates w a b := by
  have hzero : w.low 0 = 0 := by cases w <;> rfl
  have hneg : (f.neg w b).2.get .carry ↔ 0 < w.low b := by
    rw [← hzero]
    exact f.carry_sub w 0 b
  refine ⟨⟨f.isSum_addCarry w a b false, f.carry_addCarry w a b false⟩,
    ⟨f.isSum_addCarry w a b _, f.carry_addCarry w a b _⟩,
    ⟨(f.isSum_addCarry w a 1 false).set_carry _, by simp [inc]⟩,
    ⟨f.isDifference_sub w a b, f.carry_sub w a b⟩,
    ⟨f.isDifference_subBorrow w a b _, f.carry_subBorrow w a b _⟩,
    ⟨f.isDifference_sub w 0 b, hneg⟩, rfl,
    ⟨(f.isDifference_sub w a 1).set_carry _, by simp [dec]⟩,
    ⟨f.isDifference_sub w a b, f.carry_sub w a b⟩, f.holds_sub w a b⟩

end Flags
end RealMode
