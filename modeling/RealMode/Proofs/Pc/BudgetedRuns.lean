import RealMode.Proofs.BudgetedRuns
import RealMode.Proofs.Pc.TransparentCall

/-! # Runs of the machine with a budget -/
namespace RealMode

namespace Cpu

variable {M H : Type} (c : Cpu M H)

theorem steps_hostReturn [Bus M] : c.hostReturn.steps = c.steps := by
  cases c
  rfl

theorem steps_atService [Bus M] (vector : UInt8) : (c.atService vector).steps = c.steps := by
  cases c
  rfl

end Cpu

namespace Pc

theorem Installed.counting (config : Config) : Cpu.Counting (Installed config) := by
  apply Cpu.Counting.of_lasting (Installed.lasting config)
  intro c d vector hc hd
  cases hreg : c.services.get? vector with
  | none =>
    rw [Cpu.interrupt_of_no_service hreg] at hd
    cases hd
    exact c.steps_atVector vector
  | some s =>
    rw [Cpu.interrupt_of_service hreg] at hd
    cases hd
    have hserve := (s.confined_serve (c.atService vector)).steps.trans (c.steps_atService vector)
    exact (Cpu.steps_hostReturn _).trans hserve

namespace Machine

def noteRun (s : RunSummary) (c : Cpu Board Service) : Cpu Board Service :=
  c.note .bios .debug fun _ =>
    "run stopped: " ++ s.reason.name ++ " after " ++ toString s.steps ++ " steps"

theorem runUntilHalt_of_run {m : Machine Service} (hprogram : ¬ m.program.isNone)
    {limit : Option Nat} {s : RunSummary} {d : Cpu Board Service}
    (hrun : Cpu.run (limit <|> m.config.stepLimit) m.cpu = .ok s d) :
    runUntilHalt limit m = .ok s (m.onCpu fun _ => noteRun s d) := by
  unfold runUntilHalt
  show (if m.program.isNone then _ else _ : Action Service RunSummary) m = _
  rw [if_neg hprogram]
  exact bind_of_ok (liftCpu_apply hrun)

end Machine

end Pc

/-- Runs compose: of any processor without services, and of the processor of a machine with its
own. The machine's run of a program is a run of its processor. -/
theorem budgeted_runs_compose :
    (∀ (M H : Type) [Bus M] [HostService M H] (c : Cpu M H), c.Unserved → c.RunsCompose) ∧
      ∀ m : Pc.Machine Pc.Service, m.Reachable → m.cpu.RunsCompose ∧
        (¬ m.program.isNone → ∀ a, ∃ s d, m.cpu.RunsFor a s d ∧
          Pc.Machine.runUntilHalt (some a) m =
            .ok s (m.onCpu fun _ => Pc.Machine.noteRun s d)) := by
  constructor
  · intro M H _ _ c hc
    exact Cpu.counting_unserved.runsCompose hc
  · intro m hm
    have hcounting : Cpu.Counting (Pc.Installed m.config) := Pc.Installed.counting m.config
    refine ⟨hcounting.runsCompose hm.sound.installed, ?_⟩
    intro hprogram a
    obtain ⟨s, d, hrun, -⟩ := hcounting.runsFor hm.sound.installed a
    exact ⟨s, d, hrun, Pc.Machine.runUntilHalt_of_run hprogram hrun.run⟩

/-- A machine whose program ends at once. -/
def Pc.Machine.ending : Machine Service := after (load (callImage 0x20) "") (new .standard .silent)

theorem Pc.Machine.reachable_ending : ending.Reachable :=
  Reachable.operation (.new .standard .silent) (.load (callImage 0x20) "")

theorem Pc.Machine.program_ending : ¬ ending.program.isNone := by
  rw [ending, after, load_callImage]
  exact Bool.false_ne_true

theorem runs_compose_while_adding_and_ending :
    (Filled.adding.Unserved ∧ Filled.adding.RunsCompose) ∧
    Pc.Machine.ending.Reachable ∧ Pc.Machine.ending.cpu.RunsCompose ∧
    ¬ Pc.Machine.ending.program.isNone ∧ ∃ s d, Pc.Machine.ending.cpu.RunsFor 1 s d ∧
      Pc.Machine.runUntilHalt (some 1) Pc.Machine.ending =
        .ok s (Pc.Machine.ending.onCpu fun _ => Pc.Machine.noteRun s d) := by
  have hadding : Filled.adding.Unserved := Services.get?_empty
  have hreachable := Pc.Machine.reachable_ending
  obtain ⟨hcompose, hrun⟩ := budgeted_runs_compose.2 _ hreachable
  have hbare := budgeted_runs_compose.1 Filled Empty _ hadding
  exact ⟨⟨hadding, hbare⟩, hreachable, hcompose, Pc.Machine.program_ending,
    hrun Pc.Machine.program_ending 1⟩

end RealMode
