import RealMode.Proofs.InterruptFrame

/-! # Flags that an operation may change -/
namespace RealMode

namespace Flag

def result : List Flag := [zero, sign, parity]

/-- The flags of AND, OR, XOR and the products. -/
def logical : List Flag := [carry, overflow, zero, sign, parity]

def counting : List Flag := [overflow, auxiliary, zero, sign, parity]

def status : List Flag := [carry, overflow, auxiliary, zero, sign, parity]

/-- The flags in the byte that LAHF and SAHF move. -/
def low : List Flag := [carry, parity, auxiliary, zero, sign]

theorem result_subset_logical : result ⊆ logical := by decide

theorem carry_subset_logical : [carry, overflow] ⊆ logical := by decide

theorem result_subset_status : result ⊆ status := by decide

theorem result_subset_low : result ⊆ low := by decide

end Flag

def AluOp.changes : AluOp → List Flag
  | and | or | xor => Flag.logical
  | add | adc | sub | sbb | cmp => Flag.status

/-- OF only by a count of one, and the flags of the result unless the value is rotated. -/
def ShiftOp.changes (op : ShiftOp) (count : Nat) : List Flag :=
  (if count = 1 then [.overflow] else []) ++
    if op.isRotate then [.carry] else .carry :: Flag.result

namespace Flags

/-- Only the flags `S` differ, if bit 1 was set: POPF and IRET set it in any case. -/
def Touched (S : List Flag) (g f : Flags) : Prop :=
  f.bitAt 1 → ∀ n, (∀ a ∈ S, a.bit ≠ n) → g.bitAt n = f.bitAt n

theorem bitAt_set_self (f : Flags) (a : Flag) (v : Bool) : (f.set a v).bitAt a.bit = v := by
  rw [← get_eq_bitAt, get_set, if_pos rfl]

namespace Touched

variable {S : List Flag} {f g : Flags}

theorem refl (f : Flags) : f.Touched S f := fun _ _ _ => rfl

theorem reserved (h : g.Touched S f) (hf : f.bitAt 1) : g.bitAt 1 := by
  rw [h hf 1 fun a _ => bit_ne_one a]
  exact hf

theorem trans {k : Flags} (h : k.Touched S g) (h' : g.Touched S f) : k.Touched S f := by
  intro hf n hn
  rw [h (h'.reserved hf) n hn, h' hf n hn]

theorem setWord (f : Flags) (w : UInt16) (hall : ∀ a, a ∈ S) : (f.setWord w).Touched S f := by
  intro hf n hn
  by_cases hlt : n < 32
  · rw [bitAt_setWord _ _ hlt]
    by_cases hone : n = 1
    · rw [if_pos hone, hone, hf]
    · rw [if_neg hone, if_neg]
      intro hwritable
      obtain ⟨a, ha⟩ := flagBits_writableMask n hwritable
      exact hn a (hall a) ha
  · rw [bitAt_of_ge _ (Nat.not_lt.mp hlt), bitAt_of_ge _ (Nat.not_lt.mp hlt)]

theorem setLowByte (f : Flags) (b : UInt8)
    (hlow : Flag.low ⊆ S) : (f.setLowByte b).Touched S f := by
  intro _ n hn
  have hmask : ∀ n < 32, lowMask.toBitVec.getLsbD n →
      n ∈ Flag.low.map Flag.bit := by decide
  rw [Flags.setLowByte, bitAt_replace, if_neg]
  intro hset
  by_cases hlt : n < 32
  · obtain ⟨a, ha, hbit⟩ := List.mem_map.mp (hmask n hlt hset)
    exact hn a (hlow ha) hbit
  · rw [BitVec.getLsbD_of_ge _ n (Nat.not_lt.mp hlt)] at hset
    exact nomatch hset

theorem restore {a : Flag} (h : g.Touched (a :: S) f) : (g.set a (f.get a)).Touched S f := by
  intro hf n hn
  by_cases ha : a.bit = n
  · rw [← ha, bitAt_set_self, get_eq_bitAt]
  · rw [bitAt_set_of_ne _ _ _ ha]
    apply h hf n
    intro b hb
    rcases List.mem_cons.mp hb with rfl | hbS
    · exact ha
    · exact hn b hbS

section Results

variable (h : g.Touched S f)
include h

theorem set {a : Flag} (ha : a ∈ S) (v : Bool) : (g.set a v).Touched S f := by
  intro hf n hn
  rw [bitAt_set_of_ne _ _ _ (hn a ha), h hf n hn]

theorem ofResult (hS : Flag.result ⊆ S) (w : Width) (r : Nat) : (g.ofResult w r).Touched S f :=
  ((h.set (hS (by decide)) _).set (hS (by decide)) _).set (hS (by decide)) _

theorem addCarry (hS : Flag.status ⊆ S) (w : Width) (a b : UInt16) (c : Bool) :
    (g.addCarry w a b c).2.Touched S f := by
  apply ofResult _ fun _ ha => hS (Flag.result_subset_status ha)
  exact ((h.set (hS (by decide)) _).set (hS (by decide)) _).set (hS (by decide)) _

theorem subBorrow (hS : Flag.status ⊆ S) (w : Width) (a b : UInt16) (c : Bool) :
    (g.subBorrow w a b c).2.Touched S f := by
  apply ofResult _ fun _ ha => hS (Flag.result_subset_status ha)
  exact ((h.set (hS (by decide)) _).set (hS (by decide)) _).set (hS (by decide)) _

theorem bitwise (hS : Flag.logical ⊆ S) (w : Width) (v : UInt16) :
    (g.bitwise w v).2.Touched S f := by
  apply ofResult _ fun _ ha => hS (Flag.result_subset_logical ha)
  exact (h.set (hS (by decide)) false).set (hS (by decide)) false

end Results

theorem inc (f : Flags) (w : Width) (a : UInt16) : (f.inc w a).2.Touched Flag.counting f :=
  restore ((refl f).addCarry (by decide) w a 1 false)

theorem dec (f : Flags) (w : Width) (a : UInt16) : (f.dec w a).2.Touched Flag.counting f :=
  restore ((refl f).subBorrow (by decide) w a 1 false)

theorem alu (op : AluOp) (f : Flags) (w : Width) (a b : UInt16) :
    (op.apply f w a b).2.Touched op.changes f := by
  cases op with
  | add | adc => exact (refl f).addCarry (by decide) w a b _
  | sub | cmp | sbb => exact (refl f).subBorrow (by decide) w a b _
  | and | or | xor => exact (refl f).bitwise (by decide) w _

theorem shift (op : ShiftOp) (f : Flags) (w : Width) (v : UInt16) (count : Nat) :
    (op.apply f w v count).2.Touched (op.changes count) f := by
  have hoverflow (b : Bool) :
      (if count = 1 then f.set .overflow b else f).Touched (op.changes count) f := by
    by_cases hcount : count = 1
    · rw [if_pos hcount]
      exact (refl f).set (by simp [ShiftOp.changes, hcount]) b
    · rw [if_neg hcount]
      exact refl f
  have hcarry : .carry ∈ op.changes count := by
    cases op <;> simp [ShiftOp.changes, ShiftOp.isRotate]
  unfold ShiftOp.apply
  dsimp only
  by_cases hrotate : op.isRotate
  · rw [if_pos hrotate]
    exact (hoverflow _).set hcarry _
  · rw [if_neg hrotate]
    refine ((hoverflow _).set hcarry _).ofResult (fun a ha => ?_) w _
    rw [ShiftOp.changes, if_neg hrotate]
    exact List.mem_append_right _ (List.mem_cons_of_mem _ ha)

end Touched
end Flags
end RealMode
