import RealMode.Proofs.IntegerFlags

/-! # Shifts and rotates by any count

RCL and RCR rotate the value with the carry as one more bit above it.
-/
namespace RealMode

section Rotation

variable {L : Nat} (x : BitVec L)

theorem bit_rotateRight (n : Nat) {i : Nat} (hi : i < L) :
    (x.rotateRight n).getLsbD i = x.getLsbD ((i + n) % L) := by
  have hr := Nat.mod_lt n (Nat.zero_lt_of_lt hi)
  rw [BitVec.getLsbD_rotateRight, ← Nat.add_mod_mod]
  by_cases h : i < L - n % L
  · rw [Nat.mod_eq_of_lt (a := i + n % L) (by omega)]
    simp [h, Nat.add_comm]
  · rw [Nat.mod_eq_sub_mod (a := i + n % L) (by omega),
      Nat.mod_eq_of_lt (a := i + n % L - L) (by omega)]
    simp only [h, hi, decide_false, decide_true, cond_false, Bool.true_and]
    congr 1
    omega

/-- A rotate to the left is given by where a bit goes, so that one to the right brings it back. -/
theorem bit_rotateLeft (n : Nat) {i : Nat} (hi : i < L) :
    (x.rotateLeft n).getLsbD ((i + n) % L) = x.getLsbD i := by
  have hr := Nat.mod_lt n (Nat.zero_lt_of_lt hi)
  rw [BitVec.getLsbD_rotateLeft, ← Nat.add_mod_mod]
  by_cases h : i < L - n % L
  · rw [Nat.mod_eq_of_lt (a := i + n % L) (by omega)]
    have hge : ¬ i + n % L < n % L := by omega
    have hlt : i + n % L < L := by omega
    simp only [hge, hlt, decide_false, decide_true, cond_false, Bool.true_and]
    congr 1
    omega
  · rw [Nat.mod_eq_sub_mod (a := i + n % L) (by omega),
      Nat.mod_eq_of_lt (a := i + n % L - L) (by omega)]
    have hlt : i + n % L - L < n % L := by omega
    simp only [hlt, decide_true, cond_true]
    congr 1
    omega

variable {x} in
theorem eq_of_bits_past {y : BitVec L} (n : Nat)
    (h : ∀ i < L, x.getLsbD ((i + n) % L) = y.getLsbD ((i + n) % L)) : x = y := by
  apply BitVec.eq_of_getLsbD_eq
  intro j hj
  have hr := Nat.mod_lt n (Nat.zero_lt_of_lt hj)
  have hplace : ((j + (L - n % L)) % L + n) % L = j := by
    have hn := Nat.div_add_mod n L
    have hsum : j + (L - n % L) + n = j + L * (n / L + 1) := by
      rw [Nat.mul_succ]
      omega
    rw [Nat.mod_add_mod, hsum, Nat.add_mul_mod_self_left, Nat.mod_eq_of_lt hj]
  rw [← hplace]
  exact h _ (Nat.mod_lt _ (Nat.zero_lt_of_lt hj))

theorem rotateRight_add (m n : Nat) : x.rotateRight (m + n) = (x.rotateRight m).rotateRight n := by
  apply BitVec.eq_of_getLsbD_eq
  intro i hi
  have hin := Nat.mod_lt (i + n) (Nat.zero_lt_of_lt hi)
  rw [bit_rotateRight _ _ hi, bit_rotateRight _ _ hi, bit_rotateRight _ _ hin, Nat.mod_add_mod,
    Nat.add_assoc, Nat.add_comm n]

theorem rotateLeft_add (m n : Nat) : x.rotateLeft (m + n) = (x.rotateLeft m).rotateLeft n := by
  apply eq_of_bits_past (m + n)
  intro i hi
  have him := Nat.mod_lt (i + m) (Nat.zero_lt_of_lt hi)
  rw [bit_rotateLeft _ _ hi, ← Nat.add_assoc, ← Nat.mod_add_mod, bit_rotateLeft _ _ him,
    bit_rotateLeft _ _ hi]

theorem rotateRight_zero : x.rotateRight 0 = x := by
  apply BitVec.eq_of_getLsbD_eq
  intro i hi
  rw [bit_rotateRight _ _ hi, Nat.add_zero, Nat.mod_eq_of_lt hi]

theorem rotateLeft_zero : x.rotateLeft 0 = x :=
  eq_of_bits_past 0 fun i hi => by
    rw [bit_rotateLeft _ _ hi, Nat.add_zero, Nat.mod_eq_of_lt hi]

theorem rotateRight_rotateLeft (n : Nat) : (x.rotateLeft n).rotateRight n = x := by
  apply BitVec.eq_of_getLsbD_eq
  intro i hi
  rw [bit_rotateRight _ _ hi, bit_rotateLeft _ _ hi]

theorem bit_rotateRight_one {i : Nat} (hi : i < L) :
    (x.rotateRight 1).getLsbD i = if i + 1 = L then x.getLsbD 0 else x.getLsbD (i + 1) := by
  rw [bit_rotateRight _ _ hi]
  by_cases htop : i + 1 = L
  · rw [if_pos htop, htop, Nat.mod_self]
  · rw [if_neg htop, Nat.mod_eq_of_lt (by omega)]

theorem bit_rotateLeft_one {i : Nat} (hi : i < L) :
    (x.rotateLeft 1).getLsbD i = if i = 0 then x.getLsbD (L - 1) else x.getLsbD (i - 1) := by
  by_cases hzero : i = 0
  · have h := bit_rotateLeft x 1 (show L - 1 < L by omega)
    rw [Nat.sub_add_cancel (by omega), Nat.mod_self] at h
    rw [if_pos hzero, hzero, h]
  · have h := bit_rotateLeft x 1 (show i - 1 < L by omega)
    rw [Nat.sub_add_cancel (by omega), Nat.mod_eq_of_lt hi] at h
    rw [if_neg hzero, h]

theorem bit_zero_rotateLeft (n : Nat) :
    (x.rotateLeft n).getLsbD 0 = x.getLsbD ((L - n % L) % L) := by
  cases L with
  | zero => rw [BitVec.eq_nil x]; simp
  | succ L =>
    have hr := Nat.mod_lt n (Nat.succ_pos L)
    have hback : ((L + 1 - n % (L + 1)) % (L + 1) + n) % (L + 1) = 0 := by
      rw [Nat.mod_add_mod, ← Nat.add_mod_mod, Nat.sub_add_cancel (Nat.le_of_lt hr), Nat.mod_self]
    rw [← bit_rotateLeft x n (Nat.mod_lt _ (Nat.succ_pos L)), hback]

theorem msb_rotateLeft_eq (n : Nat) :
    (x.rotateLeft n).msb = x.getLsbD ((L - (n + 1) % L) % L) := by
  cases L with
  | zero => rw [BitVec.eq_nil x]; simp
  | succ L =>
    have h := bit_rotateLeft (x.rotateLeft n) 1 (Nat.lt_succ_self L)
    rw [Nat.mod_self, ← rotateLeft_add, bit_zero_rotateLeft] at h
    rw [BitVec.msb_eq_getLsbD_last, h]
    rfl

end Rotation

namespace Width

variable (w : Width) {r : Nat}

def field (v : UInt16) : BitVec w.bits := BitVec.ofNat w.bits (w.low v)

theorem toNat_field (v : UInt16) : (w.field v).toNat = w.low v := by
  rw [field, BitVec.toNat_ofNat, ← w.modulus_eq_two_pow]
  exact Nat.mod_eq_of_lt (w.low_lt v)

theorem signed_eq_toInt (v : UInt16) : w.signed v = (w.field v).toInt := by
  rw [signed_eq_bmod, BitVec.toInt_eq_toNat_bmod, toNat_field, ← w.modulus_eq_two_pow]

theorem bit_left (r : Nat) (b : Bool) {i : Nat} (hi : i < w.bits) :
    (BitVec.ofNat w.bits ((2 * r + b.toNat) % w.modulus)).getLsbD i =
      if i = 0 then b else (BitVec.ofNat w.bits r).getLsbD (i - 1) := by
  have hb : b.toNat < 2 ^ 1 := b.toNat_lt
  have hsum : (2 * r + b.toNat).testBit i =
      if i < 1 then b.toNat.testBit i else r.testBit (i - 1) :=
    Nat.testBit_two_pow_mul_add r hb i
  rw [w.modulus_eq_two_pow, BitVec.getLsbD_ofNat, BitVec.getLsbD_ofNat, Nat.testBit_mod_two_pow,
    decide_eq_true hi, decide_eq_true (show i - 1 < w.bits by omega), Bool.true_and,
    Bool.true_and, Bool.true_and, hsum]
  by_cases hzero : i = 0
  · subst hzero
    cases b <;> rfl
  · rw [if_neg (by omega), if_neg hzero]

theorem bit_right (hr : r < w.modulus) (b : Bool) {i : Nat} (hi : i < w.bits) :
    (BitVec.ofNat w.bits (r / 2 + b.toNat * (w.modulus / 2))).getLsbD i =
      if i + 1 = w.bits then b else (BitVec.ofNat w.bits r).getLsbD (i + 1) := by
  have htwice : w.modulus = 2 * 2 ^ (w.bits - 1) := by cases w <;> rfl
  have hhalf : w.modulus / 2 = 2 ^ (w.bits - 1) := by omega
  have hlow : r / 2 < 2 ^ (w.bits - 1) := by omega
  rw [hhalf, Nat.add_comm, Nat.mul_comm, BitVec.getLsbD_ofNat, BitVec.getLsbD_ofNat,
    decide_eq_true hi, Bool.true_and, Nat.testBit_two_pow_mul_add _ hlow]
  by_cases htop : i + 1 = w.bits
  · rw [if_neg (by omega), if_pos htop, show i - (w.bits - 1) = 0 by omega]
    cases b <;> rfl
  · rw [if_pos (by omega), if_neg htop, Nat.testBit_div_two,
      decide_eq_true (show i + 1 < w.bits by omega), Bool.true_and]

theorem negative_eq_msb (hr : r < w.modulus) : w.negative r = (BitVec.ofNat w.bits r).msb := by
  have hhalf : w.modulus / 2 = 2 ^ (w.bits - 1) := by cases w <;> rfl
  rw [Bool.eq_iff_iff, w.negative_of_lt hr, BitVec.msb_eq_decide, decide_eq_true_eq,
    BitVec.toNat_ofNat, ← w.modulus_eq_two_pow, Nat.mod_eq_of_lt hr, hhalf]

theorem negative_eq_bit (hr : r < w.modulus) :
    w.negative r = (BitVec.ofNat w.bits r).getLsbD (w.bits - 1) := by
  rw [w.negative_eq_msb hr, BitVec.msb_eq_getLsbD_last]

theorem odd_eq_bit (r : Nat) : (r % 2 == 1) = (BitVec.ofNat w.bits r).getLsbD 0 := by
  rw [BitVec.getLsbD_ofNat, decide_eq_true w.bits_pos, Bool.true_and, Nat.testBit_zero]
  rfl

end Width

namespace ShiftOp

/-- RCL and RCR rotate the carry along with the value. -/
def throughCarry : ShiftOp → Bool
  | rcl | rcr => true
  | rol | ror | shl | shr | sar => false

/-- What `n` steps make of the bits that take part in them. -/
def shifted {L : Nat} (op : ShiftOp) (x : BitVec L) (n : Nat) : BitVec L :=
  match op with
  | shl => x <<< n
  | shr => x >>> n
  | sar => x.sshiftRight n
  | rol | rcl => x.rotateLeft n
  | ror | rcr => x.rotateRight n

def leaving {L : Nat} (op : ShiftOp) (x : BitVec L) : Bool :=
  match op with
  | rol | rcl | shl => x.msb
  | ror | rcr | shr | sar => x.getLsbD 0

/-- The carry as the highest bit of the value. -/
def withCarry (w : Width) (s : Nat × Bool) : BitVec (w.bits + 1) :=
  BitVec.cons s.2 (BitVec.ofNat w.bits s.1)

theorem shifted_zero {L : Nat} (op : ShiftOp) (x : BitVec L) : op.shifted x 0 = x := by
  cases op with
  | shl => exact BitVec.shiftLeft_zero x
  | shr => exact BitVec.ushiftRight_zero x
  | sar => exact BitVec.sshiftRight_zero
  | rol | rcl => exact rotateLeft_zero x
  | ror | rcr => exact rotateRight_zero x

theorem shifted_succ {L : Nat} (op : ShiftOp) (x : BitVec L) (n : Nat) :
    op.shifted x (n + 1) = op.shifted (op.shifted x n) 1 := by
  cases op with
  | shl => exact BitVec.shiftLeft_add x n 1
  | shr => exact BitVec.shiftRight_add x n 1
  | sar => exact BitVec.sshiftRight_add
  | rol | rcl => exact rotateLeft_add x n 1
  | ror | rcr => exact rotateRight_add x n 1

section Step

variable (op : ShiftOp) (w : Width) {s : Nat × Bool} (hs : s.1 < w.modulus)
include hs

theorem step_lt : (op.step w s).1 < w.modulus := by
  obtain ⟨r, c⟩ := s
  have hleft (b : Bool) : (2 * r + b.toNat) % w.modulus < w.modulus :=
    Nat.mod_lt _ w.modulus_pos
  have hright (b : Bool) : r / 2 + b.toNat * (w.modulus / 2) < w.modulus := by
    have hb := b.toNat_le
    cases w <;> simp only [Width.modulus] at * <;> omega
  cases op with
  | rol | rcl | shl => exact hleft _
  | ror | rcr | shr | sar => exact hright _

theorem carry_step : (op.step w s).2 = op.leaving (BitVec.ofNat w.bits s.1) := by
  have htop := w.negative_eq_msb hs
  have hbottom := w.odd_eq_bit s.1
  cases op with
  | rol | rcl | shl => exact htop
  | ror | rcr | shr | sar => exact hbottom

theorem ofNat_step (hop : op.throughCarry = false) :
    BitVec.ofNat w.bits (op.step w s).1 = op.shifted (BitVec.ofNat w.bits s.1) 1 := by
  apply BitVec.eq_of_getLsbD_eq
  intro i hi
  have htop := w.negative_eq_bit hs
  have hbottom := w.odd_eq_bit s.1
  have hleft (b : Bool) := w.bit_left s.1 b hi
  have hright (b : Bool) := w.bit_right hs b hi
  cases op with
  | rol => rw [shifted, bit_rotateLeft_one _ hi, ← htop, ← hleft]; rfl
  | ror => rw [shifted, bit_rotateRight_one _ hi, ← hbottom, ← hright]; rfl
  | shl =>
    rw [shifted, BitVec.getLsbD_shiftLeft]
    refine (hleft false).trans ?_
    by_cases hzero : i = 0
    · simp [hzero]
    · simp [hzero, hi]
  | shr =>
    rw [shifted, BitVec.getLsbD_ushiftRight]
    refine (hright false).trans ?_
    by_cases hlast : i + 1 = w.bits
    · rw [if_pos hlast, BitVec.getLsbD_of_ge _ _ (by omega)]
    · rw [if_neg hlast, Nat.add_comm]
  | sar =>
    rw [shifted, BitVec.getLsbD_sshiftRight, ← w.negative_eq_msb hs]
    refine (hright _).trans ?_
    by_cases hlast : i + 1 = w.bits
    · simp [hlast, Nat.add_comm 1, Nat.not_le.mpr hi]
    · simp [hlast, Nat.add_comm 1, Nat.not_le.mpr hi, show i + 1 < w.bits by omega]
  | rcl | rcr => exact nomatch hop

theorem withCarry_step (hop : op.throughCarry) :
    withCarry w (op.step w s) = op.shifted (withCarry w s) 1 := by
  apply BitVec.eq_of_getLsbD_eq
  intro i hi
  have htop := w.negative_eq_bit hs
  have hbottom := w.odd_eq_bit s.1
  have hpos := w.bits_pos
  rw [withCarry, withCarry, BitVec.getLsbD_cons]
  cases op with
  | rcl =>
    rw [shifted, bit_rotateLeft_one _ hi, BitVec.getLsbD_cons, BitVec.getLsbD_cons]
    by_cases hlast : i = w.bits
    · rw [if_pos hlast, if_neg (by omega), if_neg (by omega), hlast, ← htop]
      rfl
    · rw [if_neg hlast, if_pos (show w.bits + 1 - 1 = w.bits by omega),
        if_neg (show i - 1 ≠ w.bits by omega)]
      exact w.bit_left s.1 s.2 (by omega)
  | rcr =>
    rw [shifted, bit_rotateRight_one _ hi, BitVec.getLsbD_cons, BitVec.getLsbD_cons]
    by_cases hlast : i = w.bits
    · rw [if_pos hlast, if_pos (by omega), if_neg (by omega), ← hbottom]
      rfl
    · rw [if_neg hlast, if_neg (by omega)]
      exact w.bit_right hs s.2 (by omega)
  | rol | ror | shl | shr | sar => exact nomatch hop

end Step

section Run

variable (op : ShiftOp) (w : Width) {s : Nat × Bool} (hs : s.1 < w.modulus) (n : Nat)
include hs

theorem repeat_lt : (Nat.repeat (op.step w) n s).1 < w.modulus := by
  induction n with
  | zero => exact hs
  | succ n ih => exact op.step_lt w ih

theorem view_repeat {L : Nat} (view : Nat × Bool → BitVec L)
    (hview : ∀ s, s.1 < w.modulus → view (op.step w s) = op.shifted (view s) 1) :
    view (Nat.repeat (op.step w) n s) = op.shifted (view s) n := by
  induction n with
  | zero => exact (op.shifted_zero _).symm
  | succ n ih => rw [Nat.repeat, hview _ (op.repeat_lt w hs n), ih, ← shifted_succ]

theorem ofNat_repeat (hop : op.throughCarry = false) :
    BitVec.ofNat w.bits (Nat.repeat (op.step w) n s).1 =
      op.shifted (BitVec.ofNat w.bits s.1) n :=
  op.view_repeat w hs n (fun s => BitVec.ofNat w.bits s.1) fun _ h => op.ofNat_step w h hop

theorem withCarry_repeat (hop : op.throughCarry) :
    withCarry w (Nat.repeat (op.step w) n s) = op.shifted (withCarry w s) n :=
  op.view_repeat w hs n (withCarry w) fun _ h => op.withCarry_step w h hop

theorem carry_repeat (hop : op.throughCarry = false) :
    (Nat.repeat (op.step w) (n + 1) s).2 =
      op.leaving (op.shifted (BitVec.ofNat w.bits s.1) n) := by
  rw [Nat.repeat, op.carry_step w (op.repeat_lt w hs n), op.ofNat_repeat w hs n hop]

end Run

/-- The bit that the last of `n` steps moves out, where it was before the first. -/
def lastOut {L : Nat} (op : ShiftOp) (x : BitVec L) (n : Nat) : Bool :=
  match op with
  | shl => if n ≤ L then x.getLsbD (L - n) else false
  | shr => if n ≤ L then x.getLsbD (n - 1) else false
  | sar => x.getLsbD (min n L - 1)
  | rol | rcl => x.getLsbD ((L - n % L) % L)
  | ror | rcr => x.getLsbD ((n - 1) % L)

theorem leaving_shifted {L : Nat} (op : ShiftOp) (x : BitVec L) (hL : 0 < L) (n : Nat) :
    op.leaving (op.shifted x n) = op.lastOut x (n + 1) := by
  cases op with
  | shl =>
    rw [leaving, shifted, lastOut, BitVec.msb_eq_getLsbD_last, BitVec.getLsbD_shiftLeft]
    by_cases hn : n + 1 ≤ L
    · simp [hn, show L - 1 < L by omega, show n ≤ L - 1 by omega, Nat.sub_sub, Nat.add_comm]
    · simp [hn, show L - 1 < n by omega]
  | shr =>
    rw [leaving, shifted, lastOut, BitVec.getLsbD_ushiftRight]
    by_cases hn : n + 1 ≤ L
    · rw [if_pos hn]; rfl
    · rw [if_neg hn, BitVec.getLsbD_of_ge _ _ (by omega)]
  | sar =>
    rw [leaving, shifted, lastOut, BitVec.getLsbD_sshiftRight]
    have hsome : decide (L ≤ 0) = false := decide_eq_false (Nat.not_le.mpr hL)
    rw [hsome, Bool.not_false, Bool.true_and, Nat.add_zero, BitVec.msb_eq_getLsbD_last]
    by_cases hn : n < L
    · rw [if_pos hn, Nat.min_eq_left hn]
      rfl
    · rw [if_neg hn, Nat.min_eq_right (by omega)]
  | rol | rcl => exact msb_rotateLeft_eq x n
  | ror | rcr =>
    rw [leaving, shifted, lastOut, bit_rotateRight x n hL, Nat.zero_add]
    rfl

/-- What a count of `n` is to make of the value `v` and the carry `c`: the value `r` and the carry
`d`. -/
def ClosedForm (op : ShiftOp) (w : Width) (v : UInt16) (c : Bool) (n : Nat) (r : UInt16)
    (d : Bool) : Prop :=
  r.toNat < 2 ^ w.bits ∧
  match op with
  | shl => r.toNat = w.low v * 2 ^ n % 2 ^ w.bits ∧ d = op.lastOut (w.field v) n
  | shr => r.toNat = w.low v / 2 ^ n ∧ d = op.lastOut (w.field v) n
  | sar => w.signed r = w.signed v / 2 ^ n ∧ d = op.lastOut (w.field v) n
  | rol => w.field r = (w.field v).rotateLeft (n % w.bits) ∧ d = op.lastOut (w.field v) n
  | ror => w.field r = (w.field v).rotateRight (n % w.bits) ∧ d = op.lastOut (w.field v) n
  | rcl =>
    BitVec.cons d (w.field r) =
      (BitVec.cons c (w.field v)).rotateLeft (n % (w.bits + 1))
  | rcr =>
    BitVec.cons d (w.field r) =
      (BitVec.cons c (w.field v)).rotateRight (n % (w.bits + 1))

section Applied

variable (op : ShiftOp) (f : Flags) (w : Width) (v : UInt16) (n : Nat)

theorem toNat_apply :
    (op.apply f w v n).1.toNat = (Nat.repeat (op.step w) n (w.low v, f.get .carry)).1 :=
  w.toNat_ofNat_of_lt (op.repeat_lt w (w.low_lt v) n)

theorem toNat_apply_lt : (op.apply f w v n).1.toNat < w.modulus := by
  rw [toNat_apply]
  exact op.repeat_lt w (w.low_lt v) n

theorem low_apply : w.low (op.apply f w v n).1 = (op.apply f w v n).1.toNat :=
  Nat.mod_eq_of_lt (op.toNat_apply_lt f w v n)

theorem carry_apply :
    (op.apply f w v n).2.get .carry = (Nat.repeat (op.step w) n (w.low v, f.get .carry)).2 := by
  cases hrotate : op.isRotate <;> simp [apply, hrotate, Flags.ofResult]

theorem field_apply (hop : op.throughCarry = false) :
    w.field (op.apply f w v n).1 = op.shifted (w.field v) n := by
  rw [Width.field, low_apply, toNat_apply]
  exact op.ofNat_repeat w (w.low_lt v) n hop

theorem withCarry_apply (hop : op.throughCarry) :
    BitVec.cons ((op.apply f w v n).2.get .carry) (w.field (op.apply f w v n).1) =
      op.shifted (BitVec.cons (f.get .carry) (w.field v)) n := by
  rw [Width.field, low_apply, toNat_apply, carry_apply]
  exact op.withCarry_repeat w (w.low_lt v) n hop

theorem carry_apply_of_pos (hop : op.throughCarry = false) (hn : 0 < n) :
    (op.apply f w v n).2.get .carry = op.lastOut (w.field v) n := by
  obtain ⟨k, rfl⟩ := Nat.exists_eq_add_of_lt hn
  rw [Nat.zero_add, carry_apply, ← op.leaving_shifted _ w.bits_pos]
  exact op.carry_repeat w (w.low_lt v) k hop

theorem closedForm_apply (hn : 0 < n) :
    op.ClosedForm w v (f.get .carry) n (op.apply f w v n).1
      ((op.apply f w v n).2.get .carry) := by
  have hlow := op.low_apply f w v n
  have hfield := op.field_apply f w v n
  have hwide := op.withCarry_apply f w v n
  have hcarry (hop : op.throughCarry = false) := op.carry_apply_of_pos f w v n hop hn
  refine ⟨w.modulus_eq_two_pow ▸ op.toNat_apply_lt f w v n, ?_⟩
  cases op with
  | shl =>
    refine ⟨?_, hcarry rfl⟩
    rw [← hlow, ← w.toNat_field, hfield rfl, shifted, BitVec.toNat_shiftLeft,
      w.toNat_field, Nat.shiftLeft_eq]
  | shr =>
    refine ⟨?_, hcarry rfl⟩
    rw [← hlow, ← w.toNat_field, hfield rfl, shifted, BitVec.toNat_ushiftRight,
      w.toNat_field, Nat.shiftRight_eq_div_pow]
  | sar =>
    refine ⟨?_, hcarry rfl⟩
    rw [w.signed_eq_toInt, hfield rfl, shifted, BitVec.toInt_sshiftRight,
      ← w.signed_eq_toInt, Int.shiftRight_eq_div_pow]
    norm_cast
  | rol =>
    refine ⟨?_, hcarry rfl⟩
    rw [hfield rfl, BitVec.rotateLeft_mod_eq_rotateLeft]
    rfl
  | ror =>
    refine ⟨?_, hcarry rfl⟩
    rw [hfield rfl, BitVec.rotateRight_mod_eq_rotateRight]
    rfl
  | rcl => exact (hwide rfl).trans BitVec.rotateLeft_mod_eq_rotateLeft.symm
  | rcr => exact (hwide rfl).trans BitVec.rotateRight_mod_eq_rotateRight.symm

theorem apply_eq_truncate {u : UInt16}
    (h : w.field (op.apply f w u n).1 = w.field v) : (op.apply f w u n).1 = w.truncate v := by
  apply UInt16.toNat_inj.mp
  rw [Width.truncate, w.toNat_ofNat_of_lt (w.low_lt v), ← low_apply, ← w.toNat_field, h,
    w.toNat_field]

theorem ror_rol (g : Flags) : (ror.apply g w (rol.apply f w v n).1 n).1 = w.truncate v := by
  apply apply_eq_truncate
  rw [ror.field_apply g w _ n rfl, rol.field_apply f w v n rfl]
  exact rotateRight_rotateLeft _ n

theorem rcr_rcl {r : UInt16} {g : Flags} (h : rcl.apply f w v n = (r, g)) :
    (rcr.apply g w r n).1 = w.truncate v ∧ (rcr.apply g w r n).2.get .carry = f.get .carry := by
  have hleft := rcl.withCarry_apply f w v n rfl
  have hback := rcr.withCarry_apply g w r n rfl
  rw [h] at hleft
  rw [hleft, shifted, shifted, rotateRight_rotateLeft] at hback
  constructor
  · apply apply_eq_truncate
    have hbits := congrArg (BitVec.setWidth w.bits) hback
    rwa [BitVec.setWidth_cons, BitVec.setWidth_cons] at hbits
  · have htop := congrArg BitVec.msb hback
    rwa [BitVec.msb_cons, BitVec.msb_cons] at htop

end Applied

/-- Every count gives what its closed form says, and a rotate to the right undoes the rotate to
the left by the same count. -/
theorem shifts_equal_closed_forms (f : Flags) (w : Width) (v : UInt16) (n : Nat) :
    (0 < n → ∀ op : ShiftOp, op.ClosedForm w v (f.get .carry) n (op.apply f w v n).1
      ((op.apply f w v n).2.get .carry)) ∧
    (∀ g : Flags, (ror.apply g w (rol.apply f w v n).1 n).1 = w.truncate v) ∧
    (rcr.apply (rcl.apply f w v n).2 w (rcl.apply f w v n).1 n).1 = w.truncate v ∧
    (rcr.apply (rcl.apply f w v n).2 w (rcl.apply f w v n).1 n).2.get .carry = f.get .carry :=
  ⟨fun hn op => op.closedForm_apply f w v n hn, ror_rol f w v n, rcr_rcl f w v n rfl⟩

/-- A count of the full width still shows the lowest bit in CF. -/
theorem shl_by_full_width :
    0 < 16 ∧ (shl.apply .reset .word 0x0001 16).1 = 0 ∧
      (shl.apply .reset .word 0x0001 16).2.get .carry := by
  have hpos : 0 < 16 := by decide
  obtain ⟨-, hvalue, hcarry⟩ := (shifts_equal_closed_forms .reset .word 0x0001 16).1 hpos shl
  refine ⟨hpos, UInt16.toNat_inj.mp (hvalue.trans (by decide)), ?_⟩
  rw [hcarry]
  decide

end ShiftOp
end RealMode
