import RealMode.Proofs.GuestReturn
import RealMode.Proofs.IntegerFlags
import RealMode.Proofs.TouchedFlags

/-! # Exact products and quotients -/
namespace RealMode

/-- The quotient `q` and the remainder `r` of a division that truncates toward zero. -/
structure IsQuotient (n d q r : Int) : Prop where
  exact : n = q * d + r
  smaller : r.natAbs < d.natAbs
  sign : r ≠ 0 → r.sign = n.sign

theorem isQuotient_tdiv (n : Int) {d : Int} (hd : d ≠ 0) :
    IsQuotient n d (n.tdiv d) (n.tmod d) := by
  constructor
  · rw [Int.mul_comm]
    exact (Int.mul_tdiv_add_tmod n d).symm
  · rw [Int.natAbs_tmod]
    exact Nat.mod_lt _ (Int.natAbs_pos.mpr hd)
  · intro hr
    rw [Int.sign_tmod, if_neg]
    intro hdvd
    exact hr (Int.tmod_eq_zero_of_dvd hdvd)

namespace Width

variable {w : Width} {v : UInt16} {z : Int}

theorem not_fitsSigned_iff :
    ¬ FitsSigned w.bits z ↔ z < -(w.modulus / 2 : Int) ∨ (w.modulus / 2 - 1 : Int) < z := by
  rw [FitsSigned]
  cases w <;> simp only [modulus, bits] <;> omega

theorem signed_of_fits (hlt : v.toNat < w.modulus) (hv : (v.toNat : Int) = z % w.modulus)
    (hz : FitsSigned w.bits z) : w.signed v = z := by
  obtain ⟨hlow, hhigh⟩ := hz
  rw [signed_eq_bmod, low, Nat.mod_eq_of_lt hlt, hv, Int.emod_bmod]
  cases w <;> simp only [modulus, bits] at * <;> exact Int.bmod_eq_of_le (by omega) (by omega)

theorem fitsSigned_of_natAbs_lt (h : z.natAbs < (w.signed v).natAbs) : FitsSigned w.bits z := by
  have hv := w.low_lt v
  have hsigned := w.signed_cases v
  rw [FitsSigned]
  cases w <;> simp only [modulus, bits] at * <;> omega

end Width

namespace Cpu

variable {M H : Type} (c : Cpu M H) (w : Width)

def double : Nat :=
  match w with
  | .byte => c.regs.ax.toNat
  | .word => c.wide

def doubleSigned : Int := Int.bmod (c.double w) (2 ^ (2 * w.bits))

/-- AH, which stands above AL, or DX, which stands above AX. -/
def upper : UInt16 :=
  match w with
  | .byte => wordOfByte (c.regs.get8 .ah)
  | .word => c.regs.dx

/-- Puts one number in AL or AX and one above it. -/
def setHalves (q r : Int) : Cpu M H :=
  match w with
  | .byte => (c.setReg8 .al (UInt8.ofInt q)).setReg8 .ah (UInt8.ofInt r)
  | .word => (c.setReg .ax (UInt16.ofInt q)).setReg .dx (UInt16.ofInt r)

def SameButDouble (d c : Cpu M H) : Prop :=
  d = c.setRegs { c.regs with ax := d.regs.ax, dx := d.regs.dx }

variable {c} in
theorem SameButDouble.flags {d : Cpu M H} (h : d.SameButDouble c) : d.flags = c.flags := by
  unfold SameButDouble at h
  rw [h]
  rfl

theorem double_eq : c.double w = (c.accumulator w).toNat + 2 ^ w.bits * (c.upper w).toNat := by
  cases w with
  | byte =>
    have hax := congrArg UInt16.toNat (wordOf_lowByte_highByte c.regs.ax)
    have hal : c.regs.get8 .al = lowByte c.regs.ax := rfl
    have hah : c.regs.get8 .ah = highByte c.regs.ax := rfl
    rw [toNat_wordOf] at hax
    rw [double, accumulator, upper, toNat_wordOfByte, toNat_wordOfByte, hal, hah, Width.bits]
    omega
  | word =>
    rw [double, wide, accumulator, upper, Width.bits]
    omega

theorem halves_lt : (c.accumulator w).toNat < w.modulus ∧ (c.upper w).toNat < w.modulus := by
  cases w with
  | byte =>
    rw [accumulator, upper, toNat_wordOfByte, toNat_wordOfByte]
    exact ⟨UInt8.toNat_lt _, UInt8.toNat_lt _⟩
  | word => exact ⟨UInt16.toNat_lt _, UInt16.toNat_lt _⟩

theorem toNat_setHalves (q r : Int) :
    (((c.setHalves w q r).accumulator w).toNat : Int) = q % w.modulus ∧
      (((c.setHalves w q r).upper w).toNat : Int) = r % w.modulus := by
  cases w with
  | byte =>
    have hal : (c.setHalves .byte q r).regs.get8 .al = UInt8.ofInt q := by
      simp [setHalves, setReg8, Registers.get8_set8]
    have hah : (c.setHalves .byte q r).regs.get8 .ah = UInt8.ofInt r := by
      simp [setHalves, setReg8, Registers.get8_set8]
    rw [accumulator, upper, hal, hah, toNat_wordOfByte, toNat_wordOfByte, toNat_byte_ofInt,
      toNat_byte_ofInt]
    simp only [Width.modulus]
    omega
  | word =>
    have hax : (c.setHalves .word q r).regs.ax = UInt16.ofInt q := rfl
    have hdx : (c.setHalves .word q r).regs.dx = UInt16.ofInt r := rfl
    rw [accumulator, upper, hax, hdx, toNat_ofInt, toNat_ofInt]
    simp only [Width.modulus]
    omega

theorem sameButDouble_setHalves (q r : Int) : (c.setHalves w q r).SameButDouble c := by
  cases w <;> rfl

def DivideFails (d : Nat) : Prop := d = 0 ∨ 2 ^ w.bits ≤ c.double w / d

def DivideSignedFails (d : Int) : Prop :=
  d = 0 ∨ ¬ FitsSigned w.bits ((c.doubleSigned w).tdiv d)

instance (d : Nat) : Decidable (c.DivideFails w d) := inferInstanceAs (Decidable (_ ∨ _))

instance (d : Int) : Decidable (c.DivideSignedFails w d) := inferInstanceAs (Decidable (_ ∨ _))

variable {c w}

theorem divide?_of_fails {v : UInt16} (h : c.DivideFails w v.toNat) : c.divide? w v = none := by
  unfold divide?
  by_cases hv : v.toNat = 0
  · rw [if_pos hv]
  · have hlarge := h.resolve_left hv
    rw [if_neg hv]
    cases w with
    | byte => exact if_pos (Nat.lt_of_succ_le hlarge)
    | word => exact if_pos (Nat.lt_of_succ_le hlarge)

theorem divide?_of_not_fails {v : UInt16} (h : ¬ c.DivideFails w v.toNat) :
    c.divide? w v =
      some (c.setHalves w (c.double w / v.toNat : Nat) (c.double w % v.toNat : Nat)) := by
  obtain ⟨hv, hsmall⟩ := not_or.mp h
  have hbyte (n : Nat) : UInt8.ofInt n = UInt8.ofNat n := by
    apply UInt8.toNat_inj.mp
    rw [toNat_byte_ofInt, UInt8.toNat_ofNat']
    omega
  have hword (n : Nat) : UInt16.ofInt n = UInt16.ofNat n := by
    apply UInt16.toNat_inj.mp
    rw [toNat_ofInt, UInt16.toNat_ofNat']
    omega
  unfold divide?
  rw [if_neg hv]
  cases w with
  | byte =>
    rw [setHalves, hbyte, hbyte]
    exact if_neg fun hlarge => hsmall hlarge
  | word =>
    rw [setHalves, hword, hword]
    exact if_neg fun hlarge => hsmall hlarge

theorem divideSigned?_of_fails {v : UInt16} (h : c.DivideSignedFails w (w.signed v)) :
    c.divideSigned? w v = none := by
  unfold divideSigned?
  by_cases hv : w.signed v = 0
  · rw [if_pos hv]
  · have hfits := h.resolve_left hv
    rw [if_neg hv]
    cases w with
    | byte => exact if_pos (Width.not_fitsSigned_iff.mp hfits)
    | word => exact if_pos (Width.not_fitsSigned_iff.mp hfits)

-- The most negative dividend has no quotient by -1.
example : ¬ FitsSigned Width.word.bits ((-0x8000 : Int).tdiv (-1)) := by decide

theorem divideSigned?_of_not_fails {v : UInt16} (h : ¬ c.DivideSignedFails w (w.signed v)) :
    c.divideSigned? w v = some (c.setHalves w ((c.doubleSigned w).tdiv (w.signed v))
      ((c.doubleSigned w).tmod (w.signed v))) := by
  obtain ⟨hv, hfits⟩ := not_or.mp h
  unfold divideSigned?
  rw [if_neg hv]
  cases w with
  | byte => exact if_neg (mt Width.not_fitsSigned_iff.mpr hfits)
  | word => exact if_neg (mt Width.not_fitsSigned_iff.mpr hfits)

section Results

variable {v : UInt16} {e : Cpu M H}

theorem isQuotient_divide (h : ¬ c.DivideFails w v.toNat) (hv : v.toNat < w.modulus)
    (he : c.divide? w v = some e) :
    IsQuotient (c.double w) v.toNat (e.accumulator w).toNat (e.upper w).toNat := by
  obtain ⟨hzero, hsmall⟩ := not_or.mp h
  rw [← w.modulus_eq_two_pow, Nat.not_le] at hsmall
  have hmod := Nat.lt_trans (Nat.mod_lt (c.double w) (Nat.pos_of_ne_zero hzero)) hv
  have hfit {n : Nat} (hn : n < w.modulus) : (n : Int) % w.modulus = n :=
    Int.emod_eq_of_lt (Int.natCast_nonneg n) (Int.ofNat_lt.mpr hn)
  rw [divide?_of_not_fails h, Option.some.injEq] at he
  subst he
  obtain ⟨hq, hr⟩ := c.toNat_setHalves w (c.double w / v.toNat : Nat) (c.double w % v.toNat : Nat)
  rw [hq, hr, hfit hsmall, hfit hmod, Int.ofNat_tdiv, Int.ofNat_tmod]
  exact isQuotient_tdiv _ (Int.natCast_ne_zero.mpr hzero)

theorem isQuotient_divideSigned (h : ¬ c.DivideSignedFails w (w.signed v))
    (he : c.divideSigned? w v = some e) :
    IsQuotient (c.doubleSigned w) (w.signed v) (w.signed (e.accumulator w))
      (w.signed (e.upper w)) := by
  obtain ⟨hzero, hfits⟩ := not_or.mp h
  have hquotient := isQuotient_tdiv (c.doubleSigned w) hzero
  rw [divideSigned?_of_not_fails h, Option.some.injEq] at he
  subst he
  obtain ⟨hq, hr⟩ := c.toNat_setHalves w ((c.doubleSigned w).tdiv (w.signed v))
    ((c.doubleSigned w).tmod (w.signed v))
  obtain ⟨hqlt, hrlt⟩ := halves_lt (c.setHalves w ((c.doubleSigned w).tdiv (w.signed v))
    ((c.doubleSigned w).tmod (w.signed v))) w
  -- The remainder is smaller than the divisor, so it needs no check of its own.
  rw [Width.signed_of_fits hqlt hq (Decidable.not_not.mp hfits),
    Width.signed_of_fits hrlt hr (Width.fitsSigned_of_natAbs_lt hquotient.smaller)]
  exact hquotient

end Results

section Products

variable (c w) (v : UInt16)

theorem double_multiply (hv : v.toNat < w.modulus) :
    (c.multiply w v).double w = (c.accumulator w).toNat * v.toNat := by
  have hlt := (c.halves_lt w).1
  have hbound : (c.accumulator w).toNat * v.toNat < w.modulus * w.modulus :=
    Nat.mul_lt_mul'' hlt hv
  cases w with
  | byte =>
    have hax : (c.multiply .byte v).regs.ax =
        UInt16.ofNat ((c.regs.get8 .al).toNat * v.toNat) := rfl
    rw [accumulator, toNat_wordOfByte] at *
    rw [double, hax, UInt16.toNat_ofNat']
    exact Nat.mod_eq_of_lt hbound
  | word =>
    have hax : (c.multiply .word v).regs.ax = UInt16.ofNat (c.regs.ax.toNat * v.toNat) := rfl
    have hdx : (c.multiply .word v).regs.dx =
        UInt16.ofNat (c.regs.ax.toNat * v.toNat / 0x10000) := rfl
    rw [accumulator] at *
    rw [double, wide, hax, hdx, UInt16.toNat_ofNat', UInt16.toNat_ofNat']
    simp only [Width.modulus] at hbound
    omega

theorem upper_ne_zero_iff : c.upper w ≠ 0 ↔ 2 ^ w.bits ≤ c.double w := by
  obtain ⟨hlow, hhigh⟩ := c.halves_lt w
  rw [ne_eq, ← UInt16.toNat_inj, UInt16.toNat_zero, double_eq]
  cases w <;> simp only [Width.modulus, Width.bits] at * <;> omega

theorem flags_multiply (hv : v.toNat < w.modulus) :
    ((c.multiply w v).flags.get .carry ↔ (c.multiply w v).upper w ≠ 0) ∧
      ((c.multiply w v).flags.get .overflow ↔ (c.multiply w v).upper w ≠ 0) := by
  rw [upper_ne_zero_iff, double_multiply c w v hv]
  cases w with
  | byte =>
    rw [accumulator, toNat_wordOfByte]
    simp [multiply, setCarryOverflow, setFlags, Width.bits]
  | word => simp [multiply, setCarryOverflow, setFlags, accumulator, Width.bits]

/-- What the lower half alone has above it as a signed number. -/
def signExtension : UInt16 :=
  UInt16.ofNat (if w.signed (c.accumulator w) < 0 then w.modulus - 1 else 0)

/-- Of the two halves only the upper one has a sign. -/
theorem doubleSigned_eq :
    c.doubleSigned w = (c.accumulator w).toNat + 2 ^ w.bits * w.signed (c.upper w) := by
  obtain ⟨hlow, hhigh⟩ := c.halves_lt w
  have hsigned := w.signed_cases (c.upper w)
  rw [Width.low, Nat.mod_eq_of_lt hhigh] at hsigned
  rw [doubleSigned, double_eq]
  rcases hsigned with ⟨htop, hs⟩ | ⟨htop, hs⟩
  · rw [hs]
    cases w <;> simp only [Width.modulus, Width.bits] at * <;>
      exact Int.bmod_eq_of_le (by omega) (by omega)
  · rw [hs, ← Int.sub_bmod_right]
    cases w <;> simp only [Width.modulus, Width.bits] at * <;>
      rw [Int.bmod_eq_of_le] <;> omega

theorem upper_ne_signExtension_iff :
    c.upper w ≠ c.signExtension w ↔ c.doubleSigned w ≠ w.signed (c.accumulator w) := by
  obtain ⟨hlow, hhigh⟩ := c.halves_lt w
  have hsa := w.signed_cases (c.accumulator w)
  have hsu := w.signed_cases (c.upper w)
  rw [Width.low, Nat.mod_eq_of_lt hlow] at hsa
  rw [Width.low, Nat.mod_eq_of_lt hhigh] at hsu
  rw [ne_eq, ne_eq, ← UInt16.toNat_inj, signExtension, UInt16.toNat_ofNat', doubleSigned_eq]
  by_cases hneg : w.signed (c.accumulator w) < 0
  · rw [if_pos hneg]
    cases w <;> simp only [Width.modulus, Width.bits] at * <;> omega
  · rw [if_neg hneg]
    cases w <;> simp only [Width.modulus, Width.bits] at * <;> omega

theorem natAbs_product_le :
    (w.signed (c.accumulator w) * w.signed v).natAbs ≤ w.modulus / 2 * (w.modulus / 2) := by
  have hhalf (u : UInt16) : (w.signed u).natAbs ≤ w.modulus / 2 := by
    have hlow := w.low_lt u
    have hsigned := w.signed_cases u
    cases w <;> simp only [Width.modulus] at * <;> omega
  rw [Int.natAbs_mul]
  exact Nat.mul_le_mul (hhalf _) (hhalf v)

theorem double_multiplySigned : ((c.multiplySigned w v).double w : Int) =
    (w.signed (c.accumulator w) * w.signed v) % (2 ^ (2 * w.bits) : Nat) := by
  cases w with
  | byte =>
    have hax : (c.multiplySigned .byte v).regs.ax =
        UInt16.ofInt (Width.byte.signed (c.accumulator .byte) * Width.byte.signed v) := rfl
    rw [double, hax, toNat_ofInt]
    exact Int.toNat_of_nonneg (Int.emod_nonneg _ (by decide))
  | word =>
    have hax : (c.multiplySigned .word v).regs.ax =
        UInt16.ofInt (Width.word.signed (c.accumulator .word) * Width.word.signed v) := rfl
    have hdx : (c.multiplySigned .word v).regs.dx =
        UInt16.ofInt (Width.word.signed (c.accumulator .word) * Width.word.signed v /
          0x10000) := rfl
    rw [double, wide, hax, hdx, toNat_ofInt, toNat_ofInt, Width.bits]
    omega

theorem doubleSigned_multiplySigned :
    (c.multiplySigned w v).doubleSigned w = w.signed (c.accumulator w) * w.signed v := by
  have hbound := c.natAbs_product_le w v
  rw [doubleSigned, double_multiplySigned, Int.emod_bmod]
  cases w <;> simp only [Width.modulus, Width.bits] at * <;>
    exact Int.bmod_eq_of_le (by omega) (by omega)

theorem signed_accumulator_multiplySigned :
    w.signed ((c.multiplySigned w v).accumulator w) =
      w.signed (UInt16.ofInt (w.signed (c.accumulator w) * w.signed v)) := by
  cases w with
  | byte =>
    have hlow (u : UInt16) : Width.byte.signed (wordOfByte (lowByte u)) = Width.byte.signed u := by
      rw [Width.signed_inj, Width.low, toNat_wordOfByte, lowByte, UInt8.toNat_ofNat']
      simp only [Width.low, Width.modulus]
      omega
    exact hlow _
  | word => rfl

theorem flags_multiplySigned :
    ((c.multiplySigned w v).flags.get .carry ↔
        (c.multiplySigned w v).upper w ≠ (c.multiplySigned w v).signExtension w) ∧
      ((c.multiplySigned w v).flags.get .overflow ↔
        (c.multiplySigned w v).upper w ≠ (c.multiplySigned w v).signExtension w) := by
  rw [upper_ne_signExtension_iff, doubleSigned_multiplySigned, signed_accumulator_multiplySigned]
  cases w <;> simp [multiplySigned, setCarryOverflow, setFlags, accumulator]

end Products

theorem toNat_value_lt [Bus M] (c : Cpu M H) (o : Operand) :
    (c.value o).toNat < o.width.modulus := by
  have hbyte (b : UInt8) : (wordOfByte b).toNat < Width.byte.modulus := by
    rw [toNat_wordOfByte]
    exact b.toNat_lt
  cases o with
  | reg8 r => exact hbyte _
  | reg16 | seg | near | far => exact UInt16.toNat_lt _
  | mem m w =>
    cases w with
    | byte => exact hbyte _
    | word => exact UInt16.toNat_lt _
  | imm v w =>
    rw [value, Operand.width, Width.truncate, w.toNat_ofNat_of_lt (w.low_lt v)]
    exact w.low_lt v

end Cpu

namespace Instruction

variable {M H : Type} [Bus M] [HostService M H]

theorem orDivideError_of_some {f : Cpu M H → Option (Cpu M H)} {c e : Cpu M H}
    (h : f c = some e) : (orDivideError f : Exec M H Unit) c = .ok () e := by
  have hget : (get : Exec M H (Cpu M H)) c = .ok c c := rfl
  rw [orDivideError, bind_of_ok hget, h]
  rfl

theorem orDivideError_of_none {f : Cpu M H → Option (Cpu M H)} {c : Cpu M H}
    (h : f c = none) : (orDivideError f : Exec M H Unit) c = Cpu.interrupt divideError c := by
  have hget : (get : Exec M H (Cpu M H)) c = .ok c c := rfl
  rw [orDivideError, bind_of_ok hget, h]

theorem unserved_divideError {c : Cpu M H} (h : c.services.get? divideError = none) :
    ∃ e, Cpu.interrupt divideError c = .ok () e ∧ e.regs.ax = c.regs.ax ∧ e.regs.dx = c.regs.dx ∧
      ∀ a ∈ Flag.status, e.flags.get a = c.flags.get a := by
  have hstatus : ∀ a ∈ Flag.status, Flag.trap ≠ a ∧ Flag.interrupt ≠ a := by decide
  refine ⟨_, Cpu.interrupt_of_no_service h, ?_, ?_, ?_⟩
  · rw [Cpu.regs_atVector]
  · rw [Cpu.regs_atVector]
  · intro a ha
    obtain ⟨htrap, hinterrupt⟩ := hstatus a ha
    rw [Cpu.flags_atVector, Flags.get_set, if_neg hinterrupt, Flags.get_set, if_neg htrap]

/-- How a division ends: with the divide error where it fails, which leaves AX, DX and the status
flags alone unless a host service takes it, and else with a result in AX and DX. -/
structure Divides (i : Instruction) (c : Cpu M H) (fails : Prop) (result : Cpu M H → Prop) :
    Prop where
  raises : i.raises? c = some divideError ↔ fails
  interrupted : fails → i.execute c = Cpu.interrupt divideError c
  unserved : fails → c.services.get? divideError = none →
    ∃ e, i.execute c = .ok () e ∧ e.regs.ax = c.regs.ax ∧ e.regs.dx = c.regs.dx ∧
      ∀ a ∈ Flag.status, e.flags.get a = c.flags.get a
  divided : ¬ fails →
    ∃ e, i.execute c = .ok () e ∧ e.flags = c.flags ∧ e.SameButDouble c ∧ result e

variable {i : Instruction} {c : Cpu M H} {f : Cpu M H → Option (Cpu M H)} {fails : Prop}
  {result : Cpu M H → Prop}

theorem Divides.of_orDivideError (hexecute : i.execute c = orDivideError f c)
    (hraises : i.raises? c = if (f c).isNone then some divideError else none)
    (hnone : fails → f c = none)
    (hsome : ¬ fails → ∃ e, f c = some e ∧ e.flags = c.flags ∧ e.SameButDouble c ∧ result e) :
    Divides i c fails result := by
  have hinterrupted (h : fails) : i.execute c = Cpu.interrupt divideError c :=
    hexecute.trans (orDivideError_of_none (hnone h))
  constructor
  · rw [hraises]
    by_cases h : fails
    · rw [hnone h]
      simpa using h
    · obtain ⟨e, he, -⟩ := hsome h
      rw [he]
      simpa using h
  · exact hinterrupted
  · intro h hservice
    rw [hinterrupted h]
    exact unserved_divideError hservice
  · intro h
    obtain ⟨e, he, hrest⟩ := hsome h
    exact ⟨e, hexecute.trans (orDivideError_of_some he), hrest⟩

variable (i : Instruction) (src : Operand) (rest : List Operand) (c : Cpu M H)

theorem divides_div : Divides { i with op := .div, operands := src :: rest } c
    (c.DivideFails src.width (c.value src).toNat) fun e =>
      IsQuotient (c.double src.width) (c.value src).toNat (e.accumulator src.width).toNat
        (e.upper src.width).toNat := by
  refine .of_orDivideError (f := fun c => c.divide? src.width (c.value src)) rfl rfl
    Cpu.divide?_of_fails fun h => ?_
  have he := Cpu.divide?_of_not_fails h
  have hsame := c.sameButDouble_setHalves src.width (c.double src.width / (c.value src).toNat : Nat)
    (c.double src.width % (c.value src).toNat : Nat)
  exact ⟨_, he, hsame.flags, hsame, Cpu.isQuotient_divide h (c.toNat_value_lt src) he⟩

theorem divides_idiv : Divides { i with op := .idiv, operands := src :: rest } c
    (c.DivideSignedFails src.width (src.width.signed (c.value src))) fun e =>
      IsQuotient (c.doubleSigned src.width) (src.width.signed (c.value src))
        (src.width.signed (e.accumulator src.width)) (src.width.signed (e.upper src.width)) := by
  refine .of_orDivideError (f := fun c => c.divideSigned? src.width (c.value src)) rfl rfl
    Cpu.divideSigned?_of_fails fun h => ?_
  have he := Cpu.divideSigned?_of_not_fails h
  have hsame := c.sameButDouble_setHalves src.width
    ((c.doubleSigned src.width).tdiv (src.width.signed (c.value src)))
    ((c.doubleSigned src.width).tmod (src.width.signed (c.value src)))
  exact ⟨_, he, hsame.flags, hsame, Cpu.isQuotient_divideSigned h he⟩

/-- Divisions of either kind and width are exact or raise the divide error without a trace in AX,
DX and the status flags, and products are exact in both halves. -/
theorem divisions_exact_or_fault (i : Instruction) (src : Operand) (rest : List Operand)
    (c : Cpu M H) :
    let w := src.width
    let v := c.value src
    Divides { i with op := .div, operands := src :: rest } c
      (v.toNat = 0 ∨ 2 ^ w.bits ≤ c.double w / v.toNat)
      (fun e => IsQuotient (c.double w) v.toNat (e.accumulator w).toNat (e.upper w).toNat) ∧
    Divides { i with op := .idiv, operands := src :: rest } c
      (w.signed v = 0 ∨ ¬ FitsSigned w.bits ((c.doubleSigned w).tdiv (w.signed v)))
      (fun e => IsQuotient (c.doubleSigned w) (w.signed v) (w.signed (e.accumulator w))
        (w.signed (e.upper w))) ∧
    (∃ e, ({ i with op := .mul, operands := src :: rest }.execute : Exec M H Unit) c = .ok () e ∧
      e.double w = (c.accumulator w).toNat * v.toNat ∧
      (e.flags.get .carry ↔ e.upper w ≠ 0) ∧ (e.flags.get .overflow ↔ e.upper w ≠ 0)) ∧
    ∃ e, ({ i with op := .imul, operands := src :: rest }.execute : Exec M H Unit) c = .ok () e ∧
      e.doubleSigned w = w.signed (c.accumulator w) * w.signed v ∧
      (e.flags.get .carry ↔ e.upper w ≠ e.signExtension w) ∧
      (e.flags.get .overflow ↔ e.upper w ≠ e.signExtension w) := by
  intro w v
  have hv : v.toNat < w.modulus := c.toNat_value_lt src
  exact ⟨divides_div i src rest c, divides_idiv i src rest c,
    ⟨_, rfl, c.double_multiply w v hv, c.flags_multiply w v hv⟩,
    ⟨_, rfl, c.doubleSigned_multiplySigned w v, c.flags_multiplySigned w v⟩⟩

end Instruction
end RealMode
