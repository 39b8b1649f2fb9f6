import RealMode.Proofs.ModelExtension
import RealMode.Proofs.StepFootprint

/-! # Runs with a budget -/
namespace RealMode.Cpu

variable {M H : Type} [Bus M] [HostService M H]

/-- Steps until the processor is halted or `n` steps have been made. -/
def stepUpTo : Nat → Exec M H Unit
  | 0 => pure ()
  | n + 1 => do
    unless (← get).halted do
      step
      stepUpTo n

section StepUpTo

variable {c : Cpu M H}

theorem stepUpTo_of_halted (h : c.halted = true) (n : Nat) : stepUpTo n c = .ok () c := by
  cases n with
  | zero => rfl
  | succ n =>
    show (if c.halted then _ else _ : Exec M H Unit) c = _
    rw [h]
    rfl

theorem stepUpTo_of_step {d : Cpu M H} (h : c.halted = false) (hd : step c = .ok () d) (n : Nat) :
    stepUpTo (n + 1) c = stepUpTo n d := by
  show (if c.halted then _ else _ : Exec M H Unit) c = _
  rw [h]
  exact bind_of_ok hd

end StepUpTo

/-- A property of states from which every step succeeds and counts as one. -/
def Counting (P : Cpu M H → Prop) : Prop :=
  ∀ {c : Cpu M H}, P c → c.halted = false → ∃ d, step c = .ok () d ∧ P d ∧ d.steps = c.steps + 1

/-- A run with budget `a` from one state to another: what it does and what it reports. -/
structure RunsFor (a : Nat) (s : RunSummary) (c d : Cpu M H) : Prop where
  run : Cpu.run (some a) c = .ok s d
  stepped : stepUpTo a c = .ok () d
  counted : d.steps = c.steps + s.steps
  within : s.steps ≤ a
  reason : s.reason = .halted ↔ d.halted = true

/-- A run from the state and a run that follows it do what one run with both budgets does. -/
def RunsCompose (c : Cpu M H) : Prop :=
  ∀ a b, ∃ s t d e, c.RunsFor a s d ∧ d.RunsFor b t e ∧
    c.RunsFor (a + b) ⟨s.steps + t.steps, t.reason⟩ e

omit [HostService M H] in
theorem steps_atInstruction (c : Cpu M H) : c.atInstruction.steps = c.steps + 1 := by
  cases c
  rfl

omit [HostService M H] in
theorem steps_atVector (c : Cpu M H) (vector : UInt8) : (c.atVector vector).steps = c.steps := by
  cases c
  rfl

/-- Instructions count as one step, so that only interrupts have to be looked at. -/
theorem Counting.of_lasting {P : Cpu M H → Prop} (hP : Lasting P)
    (hinterrupt : ∀ {c d : Cpu M H} {vector : UInt8}, P c → interrupt vector c = .ok () d →
      d.steps = c.steps) : Counting P := by
  intro c hc hrunning
  obtain ⟨_, d, hd, hPd⟩ := (Upholds.step hP).ok hc
  refine ⟨d, hd, hPd, ?_⟩
  cases hraised : c.raised? with
  | some vector =>
    rw [step_of_raised hraised] at hd
    have hat := hP.follows (Follows.refl c).atInstruction hc
    rw [hinterrupt hat hd, steps_atInstruction]
  | none =>
    obtain ⟨e, he, hwithin⟩ := step_of_quiet_within hrunning hraised
    rw [hd] at he
    cases he
    rw [hwithin.steps, steps_atInstruction]

theorem counting_unserved : Counting (Unserved : Cpu M H → Prop) := by
  apply Counting.of_lasting lasting_unserved
  intro c d vector hc hd
  rw [interrupt_of_no_service (hc vector)] at hd
  cases hd
  exact c.steps_atVector vector

namespace Counting

variable {P : Cpu M H → Prop} (hP : Counting P) {c : Cpu M H}
include hP

theorem stepUpTo (hc : P c) (n : Nat) :
    ∃ d, Cpu.stepUpTo n c = .ok () d ∧ P d ∧ c.steps ≤ d.steps ∧ d.steps ≤ c.steps + n := by
  induction n generalizing c with
  | zero => exact ⟨c, rfl, hc, Nat.le_refl _, Nat.le_refl _⟩
  | succ n ih =>
    cases hhalted : c.halted with
    | true => exact ⟨c, stepUpTo_of_halted hhalted _, hc, Nat.le_refl _, by omega⟩
    | false =>
      obtain ⟨d, hd, hPd, hsteps⟩ := hP hc hhalted
      obtain ⟨e, he, hPe, hlow, hhigh⟩ := ih hPd
      exact ⟨e, (stepUpTo_of_step hhalted hd n).trans he, hPe, by omega, by omega⟩

theorem stepUpTo_add {d : Cpu M H} (hc : P c) {a : Nat} (hd : Cpu.stepUpTo a c = .ok () d)
    (b : Nat) : Cpu.stepUpTo (a + b) c = Cpu.stepUpTo b d := by
  induction a generalizing c with
  | zero =>
    cases hd
    rw [Nat.zero_add]
  | succ a ih =>
    cases hhalted : c.halted with
    | true =>
      rw [stepUpTo_of_halted hhalted] at hd
      cases hd
      rw [stepUpTo_of_halted hhalted, stepUpTo_of_halted hhalted]
    | false =>
      obtain ⟨e, he, hPe, -⟩ := hP hc hhalted
      rw [stepUpTo_of_step hhalted he] at hd
      rw [Nat.succ_add, stepUpTo_of_step hhalted he, ih hPe hd]

/-- A run with `n` steps left goes on for `n` steps, and its fuel lasts. -/
theorem runFrom {start a n : Nat} {d : Cpu M H} (hc : P c) (hstart : start ≤ c.steps)
    (hleft : c.steps - start + n = a) (hd : Cpu.stepUpTo n c = .ok () d) :
    Cpu.runFrom start (some a) (n + 1) c =
      .ok ⟨d.steps - start, if d.halted then .halted else .stepLimit⟩ d := by
  induction n generalizing c with
  | zero =>
    cases hd
    have hspent : (some a).any (· ≤ d.steps - start) = true := decide_eq_true (by omega)
    rw [runFrom_succ_apply, hspent]
    split
    next => rfl
    next => rfl
  | succ n ih =>
    rw [runFrom_succ_apply]
    cases hhalted : c.halted with
    | true =>
      rw [stepUpTo_of_halted hhalted] at hd
      cases hd
      rw [hhalted]
      rfl
    | false =>
      obtain ⟨e, he, hPe, hsteps⟩ := hP hc hhalted
      rw [stepUpTo_of_step hhalted he] at hd
      have hwithin : (some a).any (· ≤ c.steps - start) = false := decide_eq_false (by omega)
      rw [hwithin, if_neg Bool.false_ne_true, if_neg Bool.false_ne_true, bind_of_ok he]
      exact ih hPe (by omega) (by omega) hd

theorem runFrom_of_halted {start n fuel : Nat} {limit : Option Nat} {d : Cpu M H} (hc : P c)
    (hd : Cpu.stepUpTo n c = .ok () d) (hhalted : d.halted = true) (hfuel : n < fuel)
    (hlimit : ∀ a ∈ limit, c.steps - start + n ≤ a) :
    Cpu.runFrom start limit fuel c = .ok ⟨d.steps - start, .halted⟩ d := by
  induction n generalizing c fuel with
  | zero =>
    cases hd
    obtain ⟨fuel, rfl⟩ := Nat.exists_eq_add_of_lt hfuel
    rw [runFrom_succ_apply, hhalted]
    rfl
  | succ n ih =>
    obtain ⟨fuel, rfl⟩ : ∃ f, fuel = f + 1 := ⟨fuel - 1, by omega⟩
    rw [runFrom_succ_apply]
    cases hrunning : c.halted with
    | true =>
      rw [stepUpTo_of_halted hrunning] at hd
      cases hd
      rfl
    | false =>
      obtain ⟨e, he, hPe, hsteps⟩ := hP hc hrunning
      rw [stepUpTo_of_step hrunning he] at hd
      have hwithin : limit.any (· ≤ c.steps - start) = false := by
        cases limit with
        | none => rfl
        | some a =>
          have ha := hlimit a rfl
          exact decide_eq_false (by omega)
      rw [hwithin, if_neg Bool.false_ne_true, if_neg Bool.false_ne_true, bind_of_ok he]
      refine ih hPe hd (by omega) fun a ha => ?_
      have hle := hlimit a ha
      omega

theorem run_of_halted {n : Nat} {limit : Option Nat} {d : Cpu M H} (hc : P c)
    (hd : Cpu.stepUpTo n c = .ok () d) (hhalted : d.halted = true)
    (hlimit : n ≤ limit.getD Cpu.unlimited) :
    Cpu.run limit c = .ok ⟨d.steps - c.steps, .halted⟩ d := by
  refine hP.runFrom_of_halted hc hd hhalted (Nat.lt_succ_of_le hlimit) fun a ha => ?_
  obtain rfl : limit = some a := ha
  have hle : n ≤ a := hlimit
  omega

theorem runsFor (hc : P c) (a : Nat) : ∃ s d, c.RunsFor a s d ∧ P d := by
  obtain ⟨d, hd, hPd, hlow, hhigh⟩ := hP.stepUpTo hc a
  have hrun : Cpu.runFrom c.steps (some a) (a + 1) c = _ :=
    hP.runFrom hc (Nat.le_refl _) (by omega) hd
  refine ⟨_, d, ⟨hrun, hd, ?_, ?_, ?_⟩, hPd⟩
  · show d.steps = c.steps + (d.steps - c.steps)
    omega
  · show d.steps - c.steps ≤ a
    omega
  · show (if d.halted then StopReason.halted else .stepLimit) = .halted ↔ _
    split <;> simp_all

theorem runsCompose (hc : P c) : c.RunsCompose := by
  intro a b
  obtain ⟨s, d, hs, hPd⟩ := hP.runsFor hc a
  obtain ⟨t, e, ht, -⟩ := hP.runsFor hPd b
  obtain ⟨u, k, hu, -⟩ := hP.runsFor hc (a + b)
  have hk : k = e := by
    have h := (hP.stepUpTo_add hc hs.stepped b).trans ht.stepped
    rw [hu.stepped] at h
    cases h
    rfl
  subst hk
  refine ⟨s, t, d, k, hs, ht, ?_⟩
  have hsteps : u.steps = s.steps + t.steps := by
    have hcounted := hu.counted
    rw [ht.counted, hs.counted] at hcounted
    omega
  have hreason : u.reason = t.reason := by
    have h := hu.reason.trans ht.reason.symm
    cases hr : u.reason <;> cases hr' : t.reason <;> simp_all
  obtain ⟨usteps, ureason⟩ := u
  obtain rfl : usteps = _ := hsteps
  obtain rfl : ureason = _ := hreason
  exact hu

end Counting
end RealMode.Cpu
