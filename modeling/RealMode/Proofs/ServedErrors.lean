import RealMode.Proofs.LastingProperty

/-! # Errors come from services -/
namespace RealMode

namespace Cpu

variable {M H : Type}

def Unserved (c : Cpu M H) : Prop := ∀ v, c.services.get? v = none

/-- A result without errors but those of services, and without services and errors at all if
there were no services. -/
def Orderly {α : Type} (c : Cpu M H) : EStateM.Result CpuError (Cpu M H) α → Prop
  | .ok _ d => c.Unserved → d.Unserved
  | .error e _ => (∃ v message, e = .service v message) ∧ ¬ c.Unserved

theorem orderly_iff {α : Type} {c : Cpu M H} {r : EStateM.Result CpuError (Cpu M H) α} :
    c.Orderly r ↔ c.Keeps Unserved r := by
  cases r <;> exact Iff.rfl

section Lasting

variable [Bus M]

theorem Unserved.follows {c d : Cpu M H} (hc : c.Unserved) (h : d.Follows c) : d.Unserved :=
  fun v => (congrArg (Services.get? · v) h.services).trans (hc v)

variable [HostService M H]

theorem Lasting.of_unserved {P : Cpu M H → Prop} (hu : ∀ {c}, P c → c.Unserved)
    (hP : ∀ {c d : Cpu M H}, d.Follows c → P c → P d) : Lasting P := by
  constructor
  · exact hP
  · intro c vector hc
    exact ⟨_, interrupt_of_no_service (hu hc vector), hP ((Follows.refl c).atVector vector) hc⟩

theorem lasting_unserved : Lasting (Unserved : Cpu M H → Prop) :=
  .of_unserved id fun h hc => hc.follows h

end Lasting

end Cpu

def Blameless {M H α : Type} (x : Exec M H α) : Prop := ∀ c : Cpu M H, c.Orderly (x c)

namespace Blameless

variable {M H α : Type}

theorem iff_upholds {x : Exec M H α} : Blameless x ↔ Upholds Cpu.Unserved x :=
  forall_congr' fun _ => Cpu.orderly_iff

theorem ok {x : Exec M H α} (hx : Blameless x) {c : Cpu M H} (hc : c.Unserved) :
    ∃ a d, x c = .ok a d ∧ d.Unserved := (iff_upholds.mp hx).ok hc

variable [Bus M] [HostService M H]

theorem execute {i : Instruction} (h : i.Fits) : Blameless (i.execute : Exec M H Unit) :=
  iff_upholds.mpr (.execute Cpu.lasting_unserved h)

theorem step : Blameless (Cpu.step : Exec M H Unit) := iff_upholds.mpr (.step Cpu.lasting_unserved)

theorem runFrom (start : Nat) (limit : Option Nat) (fuel : Nat) :
    Blameless (Cpu.runFrom start limit fuel : Exec M H RunSummary) :=
  iff_upholds.mpr (.runFrom Cpu.lasting_unserved start limit fuel)

theorem runContext (x : ExecutionContext) : Blameless (Cpu.execute x : Exec M H RunSummary) :=
  iff_upholds.mpr (.runContext Cpu.lasting_unserved x)

end Blameless

namespace Cpu

variable {M H : Type} [Bus M] [HostService M H]

/-- No decoded instruction ends in an error that is not the error of a service, and on a
processor without services every step and every run succeeds. -/
theorem execution_succeeds :
    (∀ (v : CodeView) (c d : Cpu M H) (e : CpuError),
      (decode v).instruction.execute c = .error e d → ∃ vector text, e = .service vector text) ∧
    ∀ c : Cpu M H, c.Unserved →
      (∃ d, step c = .ok () d ∧ d.Unserved) ∧
      (∀ start limit fuel, ∃ s d, runFrom start limit fuel c = .ok s d) ∧
      ∀ x, ∃ s d, Cpu.execute x c = .ok s d := by
  refine ⟨fun v c d e he => ?_, fun c hc => ⟨?_, fun start limit fuel => ?_, fun x => ?_⟩⟩
  · have h := Blameless.execute (fits_decode v) c
    rw [he] at h
    exact h.1
  · obtain ⟨_, d, hd, hu⟩ := Blameless.step.ok hc
    exact ⟨d, hd, hu⟩
  · obtain ⟨s, d, hd, -⟩ := (Blameless.runFrom start limit fuel).ok hc
    exact ⟨s, d, hd⟩
  · obtain ⟨s, d, hd, -⟩ := (Blameless.runContext x).ok hc
    exact ⟨s, d, hd⟩

instance {M : Type} : HostService M Empty where
  serve h := nomatch h

end Cpu

/-- A memory that reads as the same byte everywhere, whatever is written. -/
structure Filled where
  byte : UInt8

namespace Filled

instance : Bus Filled where
  read m _ := m.byte
  write m _ _ := m
  writeBlock m _ _ := m

theorem getByte_eq (m : Filled) (segment offset : UInt16) : Bus.getByte m segment offset = m.byte :=
  rfl

theorem eq_of_reaches {m k : Filled} (h : Bus.Reaches m k) : k = m := by
  induction h with
  | refl => rfl
  | write _ _ _ ih | writeBlock _ _ _ ih | portIn _ _ ih | portOut _ _ _ ih => exact ih

theorem op_decoded {H : Type} {c : Cpu Filled H} {b : UInt8} {op : Op} (hb : c.memory.byte = b)
    (hscan : Prefixes.scan (fun _ => b) prefixBudget .none 0 = some (.none, 0))
    (hcommon : extendedOpcode b = false) (hrow : Row.ofOpcode b = .single op) :
    c.decoded.instruction.op = op := by
  simp only [Cpu.decoded, decodeAt, CodeView.ofBus, getByte_eq, hb, decode, hscan, hcommon, hrow]
  rfl

/-- A processor that finds nothing but INT3. -/
def breaking (services : Services Disk) : Cpu Filled Disk :=
  ⟨.zero, .reset, ⟨0xCC⟩, services, 0, false, .i8086, .silent⟩

theorem execute_breaking (services : Services Disk) (c : Cpu Filled Disk) :
    (breaking services).decoded.instruction.execute c = Cpu.interrupt breakpoint c := by
  have hop : (breaking services).decoded.instruction.op = .int3 :=
    op_decoded rfl rfl rfl (show Row.ofOpcode 0xCC = .single .int3 by decide +kernel)
  rw [Instruction.execute, hop]

def faulty : Services Disk := Services.empty.insert breakpoint .answering

/-- With its service the breakpoint ends in an error, without one the step and every run succeed. -/
theorem breakpoint_fails_by_its_service :
    (∃ e d, (breaking faulty).decoded.instruction.execute (breaking faulty) = .error e d ∧
      ∃ vector text, e = .service vector text) ∧
    (breaking .empty).Unserved ∧ (∃ d, Cpu.step (breaking .empty) = .ok () d ∧ d.Unserved) ∧
      ∀ x, ∃ s d, Cpu.execute x (breaking .empty) = .ok s d := by
  have hserved : (breaking faulty).services.get? breakpoint = some .answering := by
    simp [breaking, faulty, Services.insert]
  have hfail : HostService.serve Disk.answering ((breaking faulty).atService breakpoint) =
      .error Disk.fault (((breaking faulty).atService breakpoint).setReg .ax 1) := rfl
  have hu : (breaking .empty).Unserved := Services.get?_empty
  obtain ⟨hservice, hsucceeds⟩ := Cpu.execution_succeeds (M := Filled) (H := Disk)
  obtain ⟨hstep, -, hruns⟩ := hsucceeds _ hu
  refine ⟨?_, hu, hstep, hruns⟩
  obtain ⟨d, hd, -⟩ := Cpu.interrupt_of_error hserved hfail
  have herror := (execute_breaking faulty (breaking faulty)).trans hd
  refine ⟨_, d, herror, ?_⟩
  rw [Cpu.decoded, decodeAt] at herror
  exact hservice _ _ d _ herror

end Filled
end RealMode
