import RealMode.Pc.Clock
import Mathlib.Data.List.Pairwise

/-! # Readings of the tick clock

A reading past midnight drops the part of a tick that has gone by. From then on the clock is right
only for readings that fall no earlier in their tick than that one did.
-/
namespace RealMode.Pc

/-- The moment at which a clock was set, and what it was set to. -/
structure Setting where
  ticks : Nat
  start : Nat
  deriving DecidableEq, Repr

namespace Setting

def total (a : Setting) (s : Nat) : Nat :=
  a.ticks % ticksPerDay + (s - a.start) / stepsPerTick

def day (a : Setting) (s : Nat) : Nat := a.total s / ticksPerDay

/-- The part of a tick that has gone by at step `s`. -/
def phase (a : Setting) (s : Nat) : Nat := (s - a.start) % stepsPerTick

/-- The reading at step `r` comes before all others of its day, and that day after day `d`. -/
def OpensDay (a : Setting) (d : Nat) (steps : List Nat) (r : Nat) : Prop :=
  d < a.day r ∧ ∀ q ∈ steps, q < r → a.day q < a.day r

/-- No reading falls earlier in its tick than one before it that opened a day after day `d`. -/
def Punctual (a : Setting) (d : Nat) (steps : List Nat) : Prop :=
  ∀ r ∈ steps, a.OpensDay d steps r → ∀ s ∈ steps, r ≤ s → a.phase r ≤ a.phase s

instance (a : Setting) (d : Nat) (steps : List Nat) (r : Nat) :
    Decidable (a.OpensDay d steps r) :=
  inferInstanceAs (Decidable (_ ∧ _))

instance (a : Setting) (d : Nat) (steps : List Nat) : Decidable (a.Punctual d steps) :=
  inferInstanceAs (Decidable (∀ r ∈ steps, _))

variable {a : Setting} {d r s : Nat}

theorem total_mono (a : Setting) (h : r ≤ s) : a.total r ≤ a.total s :=
  Nat.add_le_add_left (Nat.div_le_div_right (Nat.sub_le_sub_right h _)) _

theorem day_mono (a : Setting) (h : r ≤ s) : a.day r ≤ a.day s :=
  Nat.div_le_div_right (a.total_mono h)

/-- Counting whole ticks from a later step on loses one exactly where the phase has gone back. -/
theorem total_eq_add (hr : a.start ≤ r) (hs : r ≤ s) :
    a.total s =
      a.total r + (s - r) / stepsPerTick + if a.phase r ≤ a.phase s then 0 else 1 := by
  by_cases h : a.phase r ≤ a.phase s
  · rw [if_pos h]
    simp only [total, phase, stepsPerTick] at *
    omega
  · rw [if_neg h]
    simp only [total, phase, stepsPerTick] at *
    omega

theorem total_mod (a : Setting) (s : Nat) :
    a.total s % ticksPerDay = (a.ticks + (s - a.start) / stepsPerTick) % ticksPerDay :=
  Nat.mod_add_mod _ _ _

section Punctual

variable {steps : List Nat}

theorem punctual_cons_of_day_eq (hs : a.day s = d) :
    a.Punctual d (s :: steps) ↔ a.Punctual d steps := by
  constructor
  · intro h r hr hopen t ht hrt
    refine h r (List.mem_cons_of_mem s hr) ⟨hopen.1, ?_⟩ t (List.mem_cons_of_mem s ht) hrt
    intro q hq hqr
    rcases List.mem_cons.mp hq with rfl | hq
    · exact hs ▸ hopen.1
    · exact hopen.2 q hq hqr
  · intro h r hr hopen t ht hrt
    have hne : r ≠ s := by
      rintro rfl
      exact Nat.lt_irrefl _ (hs ▸ hopen.1)
    have hr' : r ∈ steps := (List.mem_cons.mp hr).resolve_left hne
    rcases List.mem_cons.mp ht with rfl | ht
    · have hday := a.day_mono hrt
      have := hopen.1
      omega
    · exact h r hr' ⟨hopen.1, fun q hq => hopen.2 q (List.mem_cons_of_mem s hq)⟩ t ht hrt

theorem punctual_cons_of_day_lt (hs : d < a.day s) (hle : ∀ t ∈ steps, s ≤ t) :
    a.Punctual d (s :: steps) ↔
      (∀ t ∈ steps, a.phase s ≤ a.phase t) ∧ a.Punctual (a.day s) steps := by
  constructor
  · intro h
    constructor
    · intro t ht
      refine h s List.mem_cons_self ⟨hs, ?_⟩ t (List.mem_cons_of_mem s ht) (hle t ht)
      intro q hq hqs
      rcases List.mem_cons.mp hq with rfl | hq
      · exact absurd hqs (Nat.lt_irrefl _)
      · exact absurd (hle q hq) (Nat.not_le.mpr hqs)
    · intro r hr hopen t ht hrt
      refine h r (List.mem_cons_of_mem s hr) ⟨Nat.lt_trans hs hopen.1, ?_⟩ t
        (List.mem_cons_of_mem s ht) hrt
      intro q hq hqr
      rcases List.mem_cons.mp hq with rfl | hq
      · exact hopen.1
      · exact hopen.2 q hq hqr
  · rintro ⟨hphase, h⟩ r hr hopen t ht hrt
    by_cases hrs : r = s
    · subst r
      rcases List.mem_cons.mp ht with rfl | ht
      · exact Nat.le_refl _
      · exact hphase t ht
    · have hr' : r ∈ steps := (List.mem_cons.mp hr).resolve_left hrs
      have hsr : s < r := Nat.lt_of_le_of_ne (hle r hr') (Ne.symm hrs)
      have hday : a.day s < a.day r := hopen.2 s List.mem_cons_self hsr
      rcases List.mem_cons.mp ht with rfl | ht
      · exact absurd hrt (Nat.not_le.mpr hsr)
      · exact h r hr' ⟨hday, fun q hq => hopen.2 q (List.mem_cons_of_mem s hq)⟩ t ht hrt

end Punctual
end Setting

namespace Clock

/-- The answers of a clock that is read again and again. -/
def readings (c : Clock) : List Nat → List Nat
  | [] => []
  | s :: steps => (c.read s).1 :: (c.read s).2.readings steps

/-- The clock counts from a moment whose ticks it knows. -/
structure OnTime (a : Setting) (c : Clock) : Prop where
  since : a.start ≤ c.baseSteps
  ticks : c.baseTicks = a.total c.baseSteps % ticksPerDay

variable {a : Setting} {c : Clock} {s : Nat}

theorem onTime_set (ticks start : Nat) : OnTime ⟨ticks, start⟩ (set ticks start) := by
  constructor
  · exact Nat.le_refl _
  · simp [set, Setting.total]

theorem read_fst (c : Clock) (s : Nat) :
    (c.read s).1 = (c.baseTicks + (s - c.baseSteps) / stepsPerTick) % ticksPerDay := by
  unfold read
  dsimp only
  split
  next => rfl
  next hlt => exact (Nat.mod_eq_of_lt (Nat.not_le.mp hlt)).symm

theorem read_exact_iff (hc : OnTime a c) (hs : c.baseSteps ≤ s) :
    (c.read s).1 = a.total s % ticksPerDay ↔ a.phase c.baseSteps ≤ a.phase s := by
  have htotal := Setting.total_eq_add hc.since hs
  rw [read_fst, hc.ticks, Nat.mod_add_mod, htotal]
  simp only [ticksPerDay]
  split <;> omega

/-- A right reading leaves the clock as it is or, on a new day, counting from there. -/
theorem read_snd (hc : OnTime a c) (hs : c.baseSteps ≤ s)
    (hphase : a.phase c.baseSteps ≤ a.phase s) :
    a.day s = a.day c.baseSteps ∧ (c.read s).2 = c ∨
      a.day c.baseSteps < a.day s ∧ (c.read s).2.baseSteps = s ∧ OnTime a (c.read s).2 := by
  have htotal := Setting.total_eq_add hc.since hs
  rw [if_pos hphase, Nat.add_zero] at htotal
  have hticks := hc.ticks
  unfold Setting.day
  unfold read
  dsimp only
  split
  next hle =>
    refine Or.inr ⟨?_, rfl, Nat.le_trans hc.since hs, ?_⟩
    · simp only [ticksPerDay, stepsPerTick] at *
      omega
    · show (c.baseTicks + (s - c.baseSteps) / stepsPerTick) % ticksPerDay = a.total s % ticksPerDay
      rw [hticks, htotal, Nat.mod_add_mod]
  next hlt =>
    refine Or.inl ⟨?_, rfl⟩
    simp only [ticksPerDay, stepsPerTick] at *
    omega

theorem readings_iff_of_onTime {steps : List Nat} (hc : OnTime a c)
    (hle : (c.baseSteps :: steps).Pairwise (· ≤ ·)) :
    c.readings steps = steps.map (a.total · % ticksPerDay) ↔
      (∀ s ∈ steps, a.phase c.baseSteps ≤ a.phase s) ∧
        a.Punctual (a.day c.baseSteps) steps := by
  -- The clock is any that is on time, for every reading that opens a day moves its base.
  induction steps generalizing c with
  | nil => simp [Clock.readings, Setting.Punctual]
  | cons s steps ih =>
    obtain ⟨hbase, htail⟩ := List.pairwise_cons.mp hle
    obtain ⟨hs, hsteps⟩ := List.pairwise_cons.mp htail
    have hcs : c.baseSteps ≤ s := hbase s List.mem_cons_self
    rw [Clock.readings, List.map_cons, List.cons.injEq, read_exact_iff hc hcs,
      List.forall_mem_cons, and_assoc]
    refine and_congr_right fun hphase => ?_
    rcases read_snd hc hcs hphase with ⟨hday, hread⟩ | ⟨hday, hbaseSteps, hread⟩
    · rw [hread, Setting.punctual_cons_of_day_eq hday]
      apply ih hc
      exact List.pairwise_cons.mpr ⟨fun t ht => hbase t (List.mem_cons_of_mem s ht), hsteps⟩
    · have htail' : ((c.read s).2.baseSteps :: steps).Pairwise (· ≤ ·) := by
        rw [hbaseSteps]
        exact htail
      rw [Setting.punctual_cons_of_day_lt hday hs, ih hread htail', hbaseSteps]
      constructor
      · rintro ⟨hphases, hpunctual⟩
        exact ⟨fun t ht => Nat.le_trans hphase (hphases t ht), hphases, hpunctual⟩
      · rintro ⟨-, hphases, hpunctual⟩
        exact ⟨hphases, hpunctual⟩

/-- A clock that is set and then read again and again is right each time exactly if no reading
falls earlier in its tick than one before it that was the first after a midnight. -/
theorem readings_exact_iff (ticks start : Nat) {steps : List Nat}
    (hle : (start :: steps).Pairwise (· ≤ ·)) :
    (set ticks start).readings steps =
        steps.map (fun s => (ticks + (s - start) / stepsPerTick) % ticksPerDay) ↔
      (⟨ticks, start⟩ : Setting).Punctual 0 steps := by
  have hday : (⟨ticks, start⟩ : Setting).day start = 0 := by
    have := Nat.mod_lt ticks (show 0 < ticksPerDay by decide)
    simp only [Setting.day, Setting.total, Nat.sub_self, Nat.zero_div, Nat.add_zero]
    exact Nat.div_eq_of_lt this
  have hphase : (⟨ticks, start⟩ : Setting).phase start = 0 := by simp [Setting.phase]
  have h := readings_iff_of_onTime (onTime_set ticks start) hle
  have hset : (set ticks start).baseSteps = start := rfl
  rw [hset, hday, hphase] at h
  simp only [Setting.total_mod, Nat.zero_le, implies_true, true_and] at h
  exact h

theorem readings_past_midnight :
    [0, 30000, 60000].Pairwise (· ≤ ·) ∧
      (⟨ticksPerDay - 1, 0⟩ : Setting).Punctual 0 [30000, 60000] ∧
      (set (ticksPerDay - 1) 0).readings [30000, 60000] =
        [30000, 60000].map fun s => (ticksPerDay - 1 + (s - 0) / stepsPerTick) % ticksPerDay := by
  have hle : [0, 30000, 60000].Pairwise (· ≤ ·) := by decide
  have hpunctual : (⟨ticksPerDay - 1, 0⟩ : Setting).Punctual 0 [30000, 60000] := by decide
  exact ⟨hle, hpunctual, (readings_exact_iff (ticksPerDay - 1) 0 hle).mpr hpunctual⟩

/-- The tick that was under way at midnight is lost to the next reading. -/
theorem tick_lost_past_midnight :
    (set (ticksPerDay - 1) 0).readings [30000, 43690] = [0, 0] ∧
      [30000, 43690].map (fun s => (ticksPerDay - 1 + (s - 0) / stepsPerTick) % ticksPerDay) =
        [0, 1] := by
  decide

end Clock
end RealMode.Pc
