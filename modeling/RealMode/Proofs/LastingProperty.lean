import RealMode.Proofs.InstructionOutcome

/-! # Properties that last

A property that instructions keep, and that services keep without failing, is kept by every run.
-/
namespace RealMode

namespace Cpu

variable {M H : Type} [Bus M]

theorem Follows.atVector {c d : Cpu M H} (h : d.Follows c) (vector : UInt8) :
    (d.atVector vector).Follows c := (h.note .interrupts .debug _).pushFrame.jump _

variable [HostService M H]

/-- Whatever can happen to a state with the property succeeds and leaves one with it. -/
structure Lasting (P : Cpu M H → Prop) : Prop where
  follows : ∀ {c d : Cpu M H}, d.Follows c → P c → P d
  interrupt : ∀ {c : Cpu M H} (vector : UInt8), P c →
    ∃ d, Cpu.interrupt vector c = .ok () d ∧ P d

omit [Bus M] [HostService M H] in
/-- A result that keeps a property. An error is that of a service, and there is none where the
property holds. -/
def Keeps {α : Type} (P : Cpu M H → Prop) (c : Cpu M H) :
    EStateM.Result CpuError (Cpu M H) α → Prop
  | .ok _ d => P c → P d
  | .error e _ => (∃ v message, e = .service v message) ∧ ¬ P c

theorem Lasting.keeps_of_follows {P : Cpu M H → Prop} (hP : Lasting P) {α : Type} {c d : Cpu M H}
    {r : EStateM.Result CpuError (Cpu M H) α} (h : d.Follows c) (hd : d.Keeps P r) :
    c.Keeps P r := by
  cases r with
  | ok a e => exact fun hc => hd (hP.follows h hc)
  | error err e => exact ⟨hd.1, fun hc => hd.2 (hP.follows h hc)⟩

theorem error_of_interrupt {c d : Cpu M H} {vector : UInt8} {e : CpuError}
    (h : Cpu.interrupt vector c = .error e d) : ∃ v message, e = .service v message := by
  cases hreg : c.services.get? vector with
  | none =>
    rw [interrupt_of_no_service hreg] at h
    cases h
  | some s =>
    rw [interrupt_of_service hreg] at h
    cases hs : HostService.serve s (c.atService vector) with
    | ok _ k =>
      rw [hs] at h
      cases h
    | error err k =>
      rw [hs] at h
      cases h
      cases err with
      | service v message => exact ⟨v, message, rfl⟩
      | _ => exact ⟨vector, _, rfl⟩

end Cpu

def Upholds {M H α : Type} (P : Cpu M H → Prop) (x : Exec M H α) : Prop :=
  ∀ c : Cpu M H, c.Keeps P (x c)

namespace Upholds

variable {M H α β : Type} {P : Cpu M H → Prop}

theorem bind {x : Exec M H α} {f : α → Exec M H β} (hx : Upholds P x)
    (hf : ∀ a, Upholds P (f a)) : Upholds P (x >>= f) := by
  intro c
  have hc := hx c
  show c.Keeps P (EStateM.bind x f c)
  unfold EStateM.bind
  cases hr : x c with
  | error e d =>
    rw [hr] at hc
    exact hc
  | ok a d =>
    rw [hr] at hc
    have hd := hf a d
    dsimp only
    cases hfa : f a d with
    | ok b e =>
      rw [hfa] at hd
      exact fun h => hd (hc h)
    | error e k =>
      rw [hfa] at hd
      exact ⟨hd.1, fun h => hd.2 (hc h)⟩

theorem pure (a : α) : Upholds P (Pure.pure a : Exec M H α) := fun _ h => h

theorem get_bind {f : Cpu M H → Exec M H β} (hf : ∀ c, Upholds P (f c)) :
    Upholds P (get >>= f) := fun c => hf c c

theorem ite {p : Prop} [Decidable p] {x y : Exec M H α} (hx : Upholds P x) (hy : Upholds P y) :
    Upholds P (if p then x else y) := by
  split
  next => exact hx
  next => exact hy

theorem ok {x : Exec M H α} (hx : Upholds P x) {c : Cpu M H} (hc : P c) :
    ∃ a d, x c = .ok a d ∧ P d := by
  have h := hx c
  cases hr : x c with
  | ok a d =>
    rw [hr] at h
    exact ⟨a, d, rfl, h hc⟩
  | error e d =>
    rw [hr] at h
    exact absurd hc h.2

variable [Bus M] [HostService M H] (hP : Cpu.Lasting P)
include hP

theorem modify {f : Cpu M H → Cpu M H} (h : ∀ c, (f c).Follows c) :
    Upholds P (modify f : Exec M H PUnit) := fun c => hP.follows (h c)

theorem interrupt (vector : UInt8) : Upholds P (Cpu.interrupt vector : Exec M H Unit) := by
  intro c
  cases hr : Cpu.interrupt vector c with
  | ok _ d =>
    intro hc
    obtain ⟨e, he, hPe⟩ := hP.interrupt vector hc
    rw [hr] at he
    cases he
    exact hPe
  | error e d =>
    refine ⟨Cpu.error_of_interrupt hr, fun hc => ?_⟩
    obtain ⟨k, hk, -⟩ := hP.interrupt vector hc
    rw [hr] at hk
    cases hk

theorem execute {i : Instruction} (h : i.Fits) : Upholds P (i.execute : Exec M H Unit) := by
  intro c
  have he := Cpu.ends_execute h c
  generalize i.raises? c = r at he
  rcases he with ⟨hraised⟩ | ⟨_, d, hd, hf⟩
  · rw [hraised]
    exact interrupt hP _ c
  · rw [hd]
    exact hP.follows hf

theorem step : Upholds P (Cpu.step : Exec M H Unit) := by
  intro c
  cases hraised : c.raised? with
  | some vector =>
    rw [Cpu.step_of_raised hraised]
    exact hP.keeps_of_follows (Cpu.Follows.refl c).atInstruction (interrupt hP vector _)
  | none =>
    obtain ⟨d, hd, hf⟩ := Cpu.step_of_quiet hraised
    rw [hd]
    exact hP.follows hf

theorem runFrom (start : Nat) (limit : Option Nat) (fuel : Nat) :
    Upholds P (Cpu.runFrom start limit fuel : Exec M H RunSummary) := by
  induction fuel with
  | zero => exact get_bind fun _ => pure _
  | succ fuel ih =>
    exact get_bind fun _ => ite (pure _) (ite (pure _) (bind (step hP) fun _ => ih))

theorem run (limit : Option Nat) : Upholds P (Cpu.run limit : Exec M H RunSummary) :=
  get_bind fun _ => runFrom hP _ _ _

theorem runContext (x : ExecutionContext) : Upholds P (Cpu.execute x : Exec M H RunSummary) :=
  bind (modify hP fun c => (Cpu.Follows.refl c).enterContext x) fun _ => run hP x.limit

end Upholds
end RealMode
