import Mathlib.Data.Nat.Digits.Lemmas
import Mathlib.Tactic.LinearCombination
import RealMode.Proofs.IntegerFlags

/-! # Chains of carries

Numbers of many limbs are added and subtracted limb by limb from the lowest up, with CF between
them.
-/
namespace RealMode

section Limbs

variable (w : Width)

def ofLimbs (limbs : List UInt16) : Nat := Nat.ofDigits (2 ^ w.bits) (limbs.map w.low)

def signedOfLimbs (limbs : List UInt16) : Int :=
  Int.bmod (ofLimbs w limbs) (2 ^ (w.bits * limbs.length))

/-- The limbs of a number that `n` limbs can hold. -/
structure AreLimbs (n x : Nat) (limbs : List UInt16) : Prop where
  length : limbs.length = n
  limb : ∀ r ∈ limbs, r.toNat < 2 ^ w.bits
  value : ofLimbs w limbs = x

theorem Width.low_lt_two_pow (v : UInt16) : w.low v < 2 ^ w.bits := by
  rw [← w.modulus_eq_two_pow]
  exact w.low_lt v

@[simp] theorem ofLimbs_nil : ofLimbs w [] = 0 := rfl

theorem ofLimbs_cons (a : UInt16) (limbs : List UInt16) :
    ofLimbs w (a :: limbs) = w.low a + 2 ^ w.bits * ofLimbs w limbs := by
  simp [ofLimbs, Nat.ofDigits_cons]

theorem ofLimbs_lt (limbs : List UInt16) : ofLimbs w limbs < 2 ^ (w.bits * limbs.length) := by
  have hbase : 1 < 2 ^ w.bits := by cases w <;> decide
  have hdigit : ∀ x ∈ limbs.map w.low, x < 2 ^ w.bits := by
    intro x hx
    obtain ⟨a, -, rfl⟩ := List.mem_map.mp hx
    exact w.low_lt_two_pow a
  rw [pow_mul, ← List.length_map (f := w.low)]
  exact Nat.ofDigits_lt_base_pow_length hbase hdigit

/-- The signed number of some bits is the one that fits and differs by a multiple of their
range. -/
theorem bmod_two_pow_eq_iff {bits : Nat} (hbits : 0 < bits) {x z : Int} :
    Int.bmod x (2 ^ bits) = z ↔ FitsSigned bits z ∧ (2 ^ bits : Int) ∣ z - x := by
  have hdouble : (2 : Int) ^ bits = 2 * 2 ^ (bits - 1) := by
    rw [← pow_succ']
    congr 1
    omega
  have hcast : ((2 ^ bits : Nat) : Int) = 2 ^ bits := by push_cast; rfl
  rw [Int.bmod_eq_iff (Nat.two_pow_pos bits), FitsSigned, hcast, hdouble, and_assoc]
  have hlow : 2 * 2 ^ (bits - 1) / 2 = (2 : Int) ^ (bits - 1) := by omega
  have hhigh : (2 * 2 ^ (bits - 1) + 1) / 2 = (2 : Int) ^ (bits - 1) := by omega
  rw [hlow, hhigh]

section LowestBits

variable {m : Nat} {r : Int} (z : Int) (hr : 0 ≤ r) (hlt : r < 2 ^ m)
include hr hlt

theorem ediv_add_mul_two_pow : (r + 2 ^ m * z) / 2 ^ m = z := by
  have hm : (2 : Int) ^ m ≠ 0 := by positivity
  rw [Int.add_mul_ediv_left _ _ hm, Int.ediv_eq_zero_of_lt hr hlt, zero_add]

theorem add_mul_two_pow_neg : r + 2 ^ m * z < 0 ↔ z < 0 := by
  have hm : (0 : Int) < 2 ^ m := by positivity
  calc r + 2 ^ m * z < 0 ↔ (r + 2 ^ m * z) / 2 ^ m < 0 := by
        rw [Int.ediv_lt_iff_lt_mul hm, zero_mul]
    _ ↔ z < 0 := by rw [ediv_add_mul_two_pow z hr hlt]

/-- A number fits exactly if what it carries beyond its lowest bits fits in the others. -/
theorem fitsSigned_add_mul {n : Nat} (hn : 0 < n) :
    FitsSigned (m + n) (r + 2 ^ m * z) ↔ FitsSigned n z := by
  have hm : (0 : Int) < 2 ^ m := by positivity
  have hpow : (2 : Int) ^ (m + n - 1) = 2 ^ (n - 1) * 2 ^ m := by
    rw [← pow_add]
    congr 1
    omega
  rw [FitsSigned, FitsSigned, hpow, ← neg_mul, ← Int.le_ediv_iff_mul_le hm,
    ← Int.ediv_lt_iff_lt_mul hm, ediv_add_mul_two_pow z hr hlt]

end LowestBits

theorem signedOfLimbs_singleton (a : UInt16) : signedOfLimbs w [a] = w.signed a := by
  rw [signedOfLimbs, ofLimbs_cons, ofLimbs_nil, Nat.mul_zero, Nat.add_zero, List.length_singleton,
    Nat.mul_one, w.signed_eq_bmod, w.modulus_eq_two_pow]

/-- Lower limbs count as they are: only the top limb has a sign. -/
theorem signedOfLimbs_cons (a : UInt16) {limbs : List UInt16} (h : limbs ≠ []) :
    signedOfLimbs w (a :: limbs) = w.low a + 2 ^ w.bits * signedOfLimbs w limbs := by
  have hn : 0 < w.bits * limbs.length :=
    Nat.mul_pos w.bits_pos (List.length_pos_of_ne_nil h)
  have hlow : (w.low a : Int) < 2 ^ w.bits := by exact_mod_cast w.low_lt_two_pow a
  obtain ⟨hfits, k, hk⟩ := (bmod_two_pow_eq_iff hn).mp (rfl : signedOfLimbs w limbs = _)
  have hbits : w.bits * (a :: limbs).length = w.bits + w.bits * limbs.length := by
    rw [List.length_cons]
    ring
  rw [signedOfLimbs, hbits, bmod_two_pow_eq_iff (by omega), fitsSigned_add_mul _ (by omega) hlow hn]
  refine ⟨hfits, k, ?_⟩
  rw [ofLimbs_cons, pow_add]
  push_cast
  linear_combination 2 ^ w.bits * hk

end Limbs

namespace AluOp

variable (w : Width)

/-- Combines pairs of limbs, the first pair by one operation and each further pair by another,
with the flags that the pair before has left. -/
def chain (first next : AluOp) (f : Flags) : List (UInt16 × UInt16) → List UInt16 × Flags
  | [] => ([], f)
  | (a, b) :: pairs =>
    let (r, f) := first.apply f w a b
    let (rs, f) := chain next next f pairs
    (r :: rs, f)

end AluOp

section Limb

variable (f : Flags) (w : Width) (a b : UInt16) (c : Bool)

theorem toNat_apply_lt (op : AluOp) : (op.apply f w a b).1.toNat < 2 ^ w.bits := by
  have hlt {r : Nat} (h : r < w.modulus) : (UInt16.ofNat r).toNat < 2 ^ w.bits := by
    rw [w.toNat_ofNat_of_lt h, ← w.modulus_eq_two_pow]
    exact h
  cases op <;> exact hlt (Nat.mod_lt _ w.modulus_pos)

theorem low_addCarry :
    w.low (f.addCarry w a b c).1 + 2 ^ w.bits * ((f.addCarry w a b c).2.get .carry).toNat =
      w.low a + w.low b + c.toNat := by
  have hlow : w.low (f.addCarry w a b c).1 = (w.low a + w.low b + c.toNat) % w.modulus :=
    w.low_ofNat_of_lt (Nat.mod_lt _ w.modulus_pos)
  have hcarry := f.carry_addCarry w a b c
  have ha := w.low_lt a
  have hb := w.low_lt b
  have hc := c.toNat_le
  rw [hlow]
  generalize (f.addCarry w a b c).2.get .carry = d at hcarry ⊢
  cases d <;> cases w <;>
    simp only [Width.modulus, Width.bits, Bool.toNat_true, Bool.toNat_false, Bool.false_eq_true,
      true_iff, false_iff] at * <;>
    omega

theorem low_subBorrow :
    w.low (f.subBorrow w a b c).1 + w.low b + c.toNat =
      w.low a + 2 ^ w.bits * ((f.subBorrow w a b c).2.get .carry).toNat := by
  have hlow : w.low (f.subBorrow w a b c).1 =
      (w.low a + w.modulus - (w.low b + c.toNat)) % w.modulus :=
    w.low_ofNat_of_lt (Nat.mod_lt _ w.modulus_pos)
  have hcarry := f.carry_subBorrow w a b c
  have ha := w.low_lt a
  have hb := w.low_lt b
  have hc := c.toNat_le
  rw [hlow]
  generalize (f.subBorrow w a b c).2.get .carry = d at hcarry ⊢
  cases d <;> cases w <;>
    simp only [Width.modulus, Width.bits, Bool.toNat_true, Bool.toNat_false, Bool.false_eq_true,
      true_iff, false_iff] at * <;>
    omega

end Limb

namespace AluOp

variable {w : Width} {first next : AluOp}

theorem chain_cons (f : Flags) (a b : UInt16) (pairs : List (UInt16 × UInt16)) :
    chain w first next f ((a, b) :: pairs) =
      ((first.apply f w a b).1 :: (chain w next next (first.apply f w a b).2 pairs).1,
        (chain w next next (first.apply f w a b).2 pairs).2) := rfl

theorem length_chain (f : Flags) (pairs : List (UInt16 × UInt16)) :
    (chain w first next f pairs).1.length = pairs.length := by
  induction pairs generalizing first f with
  | nil => rfl
  | cons pair pairs ih =>
    rw [chain_cons, List.length_cons, ih, List.length_cons]

theorem toNat_lt_of_mem_chain (f : Flags) (pairs : List (UInt16 × UInt16)) :
    ∀ r ∈ (chain w first next f pairs).1, r.toNat < 2 ^ w.bits := by
  induction pairs generalizing first f with
  | nil => exact fun r hr => absurd hr (List.not_mem_nil)
  | cons pair pairs ih =>
    rw [chain_cons, List.forall_mem_cons]
    exact ⟨toNat_apply_lt f w pair.1 pair.2 first, ih _⟩

end AluOp

section Sums

variable {w : Width}

/-- What comes of adding numbers and a carry limb by limb. -/
structure SumOfLimbs (w : Width) (pairs : List (UInt16 × UInt16)) (c : Bool)
    (q : List UInt16 × Flags) : Prop where
  value : ofLimbs w q.1 + 2 ^ (w.bits * pairs.length) * (q.2.get .carry).toNat =
    ofLimbs w (pairs.map Prod.fst) + ofLimbs w (pairs.map Prod.snd) + c.toNat
  overflow : q.2.get .overflow ↔ ¬ FitsSigned (w.bits * pairs.length)
    (signedOfLimbs w (pairs.map Prod.fst) + signedOfLimbs w (pairs.map Prod.snd) + c.toNat)

namespace SumOfLimbs

variable (f : Flags) (a b : UInt16) (c : Bool)

theorem single : SumOfLimbs w [(a, b)] c ([(f.addCarry w a b c).1], (f.addCarry w a b c).2) := by
  constructor
  · simpa [ofLimbs_cons] using low_addCarry f w a b c
  · simpa [signedOfLimbs_singleton] using (f.isSum_addCarry w a b c).overflow

theorem cons {pairs : List (UInt16 × UInt16)} (hne : pairs ≠ []) {q : List UInt16 × Flags}
    (hq : SumOfLimbs w pairs ((f.addCarry w a b c).2.get .carry) q) :
    SumOfLimbs w ((a, b) :: pairs) c ((f.addCarry w a b c).1 :: q.1, q.2) := by
  have hadd := low_addCarry f w a b c
  have hbits : w.bits * (pairs.length + 1) = w.bits + w.bits * pairs.length := by ring
  have hn : 0 < w.bits * pairs.length := Nat.mul_pos w.bits_pos (List.length_pos_of_ne_nil hne)
  constructor
  · have hvalue := hq.value
    simp only [List.map_cons, ofLimbs_cons, List.length_cons, hbits, pow_add]
    linear_combination hadd + 2 ^ w.bits * hvalue
  · have hlow : (w.low (f.addCarry w a b c).1 : Int) < 2 ^ w.bits := by
      exact_mod_cast w.low_lt_two_pow _
    -- The lowest limbs leave a limb and a carry, and only the carry reaches the top.
    have hsum : (signedOfLimbs w (a :: pairs.map Prod.fst) +
        signedOfLimbs w (b :: pairs.map Prod.snd) + c.toNat : Int) =
        w.low (f.addCarry w a b c).1 + 2 ^ w.bits * (signedOfLimbs w (pairs.map Prod.fst) +
          signedOfLimbs w (pairs.map Prod.snd) + ((f.addCarry w a b c).2.get .carry).toNat) := by
      rw [signedOfLimbs_cons w a (by simpa), signedOfLimbs_cons w b (by simpa)]
      have haddInt : (w.low (f.addCarry w a b c).1 : Int) +
          2 ^ w.bits * ((f.addCarry w a b c).2.get .carry).toNat =
          w.low a + w.low b + c.toNat := by exact_mod_cast hadd
      linear_combination -haddInt
    rw [hq.overflow, List.length_cons, List.map_cons, List.map_cons, hbits, hsum,
      fitsSigned_add_mul _ (by omega) hlow hn]

variable {pairs : List (UInt16 × UInt16)} {q : List UInt16 × Flags}
  (h : SumOfLimbs w pairs false q) (hlength : q.1.length = pairs.length)
include h

theorem overflow_iff : q.2.get .overflow ↔ ¬ FitsSigned (w.bits * pairs.length)
    (signedOfLimbs w (pairs.map Prod.fst) + signedOfLimbs w (pairs.map Prod.snd)) := by
  simpa using h.overflow

include hlength

/-- The carry out of the highest limb makes up for what the limbs cannot hold. -/
theorem ofLimbs_eq_mod : ofLimbs w q.1 = (ofLimbs w (pairs.map Prod.fst) +
    ofLimbs w (pairs.map Prod.snd)) % 2 ^ (w.bits * pairs.length) := by
  have hlt : ofLimbs w q.1 < 2 ^ (w.bits * pairs.length) := hlength ▸ ofLimbs_lt w q.1
  have hvalue := h.value
  rw [Bool.toNat_false, Nat.add_zero] at hvalue
  rw [← hvalue, Nat.add_mul_mod_self_left, Nat.mod_eq_of_lt hlt]

theorem carry_iff : q.2.get .carry ↔ 2 ^ (w.bits * pairs.length) ≤
    ofLimbs w (pairs.map Prod.fst) + ofLimbs w (pairs.map Prod.snd) := by
  have hlt : ofLimbs w q.1 < 2 ^ (w.bits * pairs.length) := hlength ▸ ofLimbs_lt w q.1
  have hvalue := h.value
  rw [Bool.toNat_false, Nat.add_zero] at hvalue
  rw [← hvalue]
  cases q.2.get .carry
  · simpa using hlt
  · simp

end SumOfLimbs

theorem sumOfLimbs_chain {first : AluOp} {f : Flags} {c : Bool}
    (hfirst : ∀ a b, first.apply f w a b = f.addCarry w a b c) (pair : UInt16 × UInt16)
    (pairs : List (UInt16 × UInt16)) :
    SumOfLimbs w (pair :: pairs) c (AluOp.chain w first .adc f (pair :: pairs)) := by
  induction pairs generalizing first f c pair with
  | nil =>
    rw [AluOp.chain_cons, hfirst]
    exact .single f pair.1 pair.2 c
  | cons next pairs ih =>
    rw [AluOp.chain_cons, hfirst]
    exact .cons f pair.1 pair.2 c (List.cons_ne_nil _ _) (ih (fun _ _ => rfl) next)

end Sums

section Differences

variable {w : Width}

structure DifferenceOfLimbs (w : Width) (pairs : List (UInt16 × UInt16)) (c : Bool)
    (q : List UInt16 × Flags) : Prop where
  value : ofLimbs w q.1 + ofLimbs w (pairs.map Prod.snd) + c.toNat =
    ofLimbs w (pairs.map Prod.fst) + 2 ^ (w.bits * pairs.length) * (q.2.get .carry).toNat
  less : q.2.get .sign ≠ q.2.get .overflow ↔
    signedOfLimbs w (pairs.map Prod.fst) - signedOfLimbs w (pairs.map Prod.snd) - c.toNat < 0

namespace DifferenceOfLimbs

variable (f : Flags) (a b : UInt16) (c : Bool)

theorem single :
    DifferenceOfLimbs w [(a, b)] c ([(f.subBorrow w a b c).1], (f.subBorrow w a b c).2) := by
  constructor
  · simpa [ofLimbs_cons] using low_subBorrow f w a b c
  · have h := (f.isDifference_subBorrow w a b c).sign_ne_overflow c.toNat_le
    simpa [signedOfLimbs_singleton] using h

theorem cons {pairs : List (UInt16 × UInt16)} (hne : pairs ≠ []) {q : List UInt16 × Flags}
    (hq : DifferenceOfLimbs w pairs ((f.subBorrow w a b c).2.get .carry) q) :
    DifferenceOfLimbs w ((a, b) :: pairs) c ((f.subBorrow w a b c).1 :: q.1, q.2) := by
  have hsub := low_subBorrow f w a b c
  have hbits : w.bits * (pairs.length + 1) = w.bits + w.bits * pairs.length := by ring
  constructor
  · have hvalue := hq.value
    simp only [List.map_cons, ofLimbs_cons, List.length_cons, hbits, pow_add]
    linear_combination hsub + 2 ^ w.bits * hvalue
  · have hlow : (w.low (f.subBorrow w a b c).1 : Int) < 2 ^ w.bits := by
      exact_mod_cast w.low_lt_two_pow _
    have hdiff : (signedOfLimbs w (a :: pairs.map Prod.fst) -
        signedOfLimbs w (b :: pairs.map Prod.snd) - c.toNat : Int) =
        w.low (f.subBorrow w a b c).1 + 2 ^ w.bits * (signedOfLimbs w (pairs.map Prod.fst) -
          signedOfLimbs w (pairs.map Prod.snd) - ((f.subBorrow w a b c).2.get .carry).toNat) := by
      rw [signedOfLimbs_cons w a (by simpa), signedOfLimbs_cons w b (by simpa)]
      have hsubInt : (w.low (f.subBorrow w a b c).1 : Int) + w.low b + c.toNat =
          w.low a + 2 ^ w.bits * ((f.subBorrow w a b c).2.get .carry).toNat := by
        exact_mod_cast hsub
      linear_combination -hsubInt
    rw [hq.less, List.map_cons, List.map_cons, hdiff, add_mul_two_pow_neg _ (by omega) hlow]

variable {pairs : List (UInt16 × UInt16)} {q : List UInt16 × Flags}
  (h : DifferenceOfLimbs w pairs false q) (hlength : q.1.length = pairs.length)
include h

theorem less_iff : q.2.get .sign ≠ q.2.get .overflow ↔
    signedOfLimbs w (pairs.map Prod.fst) < signedOfLimbs w (pairs.map Prod.snd) := by
  rw [h.less, Bool.toNat_false]
  omega

include hlength

theorem ofLimbs_eq_mod : ofLimbs w q.1 = (((ofLimbs w (pairs.map Prod.fst) : Int) -
    ofLimbs w (pairs.map Prod.snd)) % 2 ^ (w.bits * pairs.length)).toNat := by
  have hlt : ofLimbs w q.1 < 2 ^ (w.bits * pairs.length) := hlength ▸ ofLimbs_lt w q.1
  have hvalue : (ofLimbs w (pairs.map Prod.fst) : Int) - ofLimbs w (pairs.map Prod.snd) =
      ofLimbs w q.1 - 2 ^ (w.bits * pairs.length) * (q.2.get .carry).toNat := by
    have hsum : (ofLimbs w q.1 + ofLimbs w (pairs.map Prod.snd) + (false.toNat : Nat) : Int) =
        ofLimbs w (pairs.map Prod.fst) +
          2 ^ (w.bits * pairs.length) * (q.2.get .carry).toNat := by exact_mod_cast h.value
    rw [Bool.toNat_false] at hsum
    linear_combination -hsum
  have hltInt : (ofLimbs w q.1 : Int) < 2 ^ (w.bits * pairs.length) := by exact_mod_cast hlt
  rw [hvalue, Int.sub_mul_emod_self_left, Int.emod_eq_of_lt (by omega) hltInt, Int.toNat_natCast]

theorem carry_iff : q.2.get .carry ↔
    ofLimbs w (pairs.map Prod.fst) < ofLimbs w (pairs.map Prod.snd) := by
  have hlt : ofLimbs w q.1 < 2 ^ (w.bits * pairs.length) := hlength ▸ ofLimbs_lt w q.1
  have hsmall : ofLimbs w (pairs.map Prod.snd) < 2 ^ (w.bits * pairs.length) := by
    rw [← List.length_map (f := Prod.snd)]
    exact ofLimbs_lt w _
  have hvalue := h.value
  generalize q.2.get .carry = d at hvalue ⊢
  cases d
  · simp only [Bool.toNat_false, Nat.mul_zero, Bool.false_eq_true, false_iff] at hvalue ⊢
    omega
  · simp only [Bool.toNat_true, Bool.toNat_false, Nat.mul_one, true_iff] at hvalue ⊢
    omega

end DifferenceOfLimbs

theorem differenceOfLimbs_chain {first : AluOp} {f : Flags} {c : Bool}
    (hfirst : ∀ a b, first.apply f w a b = f.subBorrow w a b c) (pair : UInt16 × UInt16)
    (pairs : List (UInt16 × UInt16)) :
    DifferenceOfLimbs w (pair :: pairs) c (AluOp.chain w first .sbb f (pair :: pairs)) := by
  induction pairs generalizing first f c pair with
  | nil =>
    rw [AluOp.chain_cons, hfirst]
    exact .single f pair.1 pair.2 c
  | cons next pairs ih =>
    rw [AluOp.chain_cons, hfirst]
    exact .cons f pair.1 pair.2 c (List.cons_ne_nil _ _) (ih (fun _ _ => rfl) next)

end Differences

/-- Chains of ADD and ADC and of SUB and SBB are exact, modulo the range of the limbs and in what
their flags say at the end. -/
theorem chains_exact (w : Width) (f : Flags) (pair : UInt16 × UInt16)
    (pairs : List (UInt16 × UInt16)) :
    let n := (pair :: pairs).length
    let a := (pair :: pairs).map Prod.fst
    let b := (pair :: pairs).map Prod.snd
    let sum := AluOp.chain w .add .adc f (pair :: pairs)
    let difference := AluOp.chain w .sub .sbb f (pair :: pairs)
    (AreLimbs w n ((ofLimbs w a + ofLimbs w b) % 2 ^ (w.bits * n)) sum.1 ∧
      (sum.2.get .carry ↔ 2 ^ (w.bits * n) ≤ ofLimbs w a + ofLimbs w b) ∧
      (sum.2.get .overflow ↔
        ¬ FitsSigned (w.bits * n) (signedOfLimbs w a + signedOfLimbs w b))) ∧
    AreLimbs w n ((ofLimbs w a - ofLimbs w b : Int) % 2 ^ (w.bits * n)).toNat difference.1 ∧
      (difference.2.get .carry ↔ ofLimbs w a < ofLimbs w b) ∧
      (difference.2.get .sign ≠ difference.2.get .overflow ↔
        signedOfLimbs w a < signedOfLimbs w b) := by
  intro n a b sum difference
  have hsum : SumOfLimbs w (pair :: pairs) false sum :=
    sumOfLimbs_chain (fun _ _ => rfl) pair pairs
  have hdifference : DifferenceOfLimbs w (pair :: pairs) false difference :=
    differenceOfLimbs_chain (fun _ _ => rfl) pair pairs
  have hn : sum.1.length = n := AluOp.length_chain f _
  have hm : difference.1.length = n := AluOp.length_chain f _
  exact ⟨⟨⟨hn, AluOp.toNat_lt_of_mem_chain f _, hsum.ofLimbs_eq_mod hn⟩, hsum.carry_iff hn,
      hsum.overflow_iff⟩,
    ⟨hm, AluOp.toNat_lt_of_mem_chain f _, hdifference.ofLimbs_eq_mod hm⟩,
    hdifference.carry_iff hm, hdifference.less_iff⟩

-- A borrow goes on through a limb that equals its counterpart.
example :
    (AluOp.chain .byte .sub .sbb .reset [(0x00, 0x01), (0x34, 0x34)]).1 = [0xFF, 0xFF] ∧
      (AluOp.chain .byte .sub .sbb .reset [(0x00, 0x01), (0x34, 0x34)]).2.get .carry := by
  decide

end RealMode
