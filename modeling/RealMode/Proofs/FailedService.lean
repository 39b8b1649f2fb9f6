import RealMode.Interrupt
import RealMode.Ram

/-! # Failed services

The interrupt puts back SP, CS, IP, the flags and the halted bit after a failure, and no other
register.
-/
namespace RealMode

namespace Registers

def SameOthers (r s : Registers) : Prop :=
  (∀ a, a ≠ .sp → r.get a = s.get a) ∧ ∀ g, g ≠ .cs → r.getSeg g = s.getSeg g

def putBack (r s : Registers) : Registers := { r with sp := s.sp, cs := s.cs, ip := s.ip }

theorem putBack_eq_iff (r s : Registers) : r.putBack s = s ↔ r.SameOthers s := by
  constructor
  · intro h
    constructor
    · intro a ha
      have hget : (r.putBack s).get a = s.get a := by rw [h]
      cases a with
      | sp => exact absurd rfl ha
      | _ => exact hget
    · intro g hg
      have hget : (r.putBack s).getSeg g = s.getSeg g := by rw [h]
      cases g with
      | cs => exact absurd rfl hg
      | _ => exact hget
  · rintro ⟨hr, hs⟩
    have hax := hr .ax (by decide)
    have hcx := hr .cx (by decide)
    have hdx := hr .dx (by decide)
    have hbx := hr .bx (by decide)
    have hbp := hr .bp (by decide)
    have hsi := hr .si (by decide)
    have hdi := hr .di (by decide)
    have hes := hs .es (by decide)
    have hss := hs .ss (by decide)
    have hds := hs .ds (by decide)
    simp only [get, getSeg] at *
    simp only [putBack, *]

end Registers

namespace Cpu

variable {M H : Type} [Bus M]

def atVector (c : Cpu M H) (vector : UInt8) : Cpu M H :=
  let d := (c.note .interrupts .debug fun _ => interruptText c.regs vector).pushFrame
  d.jump (readVector d.memory vector)

/-- The state in which a service starts: the frame is pushed and the service out of its place. -/
def atService (c : Cpu M H) (vector : UInt8) : Cpu M H :=
  let d := (c.note .interrupts .debug fun _ => interruptText c.regs vector).pushFrame
  { d with services := d.services.erase vector }

/-- Everything the caller's program can see of the processor itself. -/
def SameProcessor (c d : Cpu M H) : Prop :=
  c.regs = d.regs ∧ c.flags = d.flags ∧ c.halted = d.halted

theorem sameOthers_atService (c : Cpu M H) (vector : UInt8) :
    (c.atService vector).regs.SameOthers c.regs := by
  constructor
  · intro a ha
    cases a with
    | sp => exact absurd rfl ha
    | _ => rfl
  · intro g _
    rfl

theorem get8_atService (c : Cpu M H) (vector : UInt8) (r : Reg8) :
    (c.atService vector).regs.get8 r = c.regs.get8 r := by
  cases r <;> rfl

variable [HostService M H]

theorem interrupt_of_service {c : Cpu M H} {vector : UInt8} {h : H}
    (hreg : c.services.get? vector = some h) :
    interrupt vector c =
      finishService c.entry vector h (HostService.serve h (c.atService vector)) := by
  have hget : ((c.note .interrupts .debug fun _ =>
      interruptText c.regs vector).pushFrame).services.get? vector = some h := hreg
  simp only [interrupt, hget]
  rfl

theorem interrupt_of_no_service {c : Cpu M H} {vector : UInt8}
    (hreg : c.services.get? vector = none) : interrupt vector c = .ok () (c.atVector vector) := by
  have hget : ((c.note .interrupts .debug fun _ =>
      interruptText c.regs vector).pushFrame).services.get? vector = none := hreg
  simp only [interrupt, hget]
  rfl

theorem interrupt_of_error {c d : Cpu M H} {vector : UInt8} {h : H} {err : CpuError}
    (hreg : c.services.get? vector = some h)
    (hfail : HostService.serve h (c.atService vector) = .error err d) :
    ∃ c', interrupt vector c = .error (serviceError vector err) c' ∧
      c'.regs = d.regs.putBack c.regs ∧ c'.flags = c.flags ∧ c'.halted = c.halted := by
  rw [interrupt_of_service hreg, hfail]
  exact ⟨_, rfl, rfl, rfl, rfl⟩

/-- The processor is as it was before the interrupt exactly where the service has left every
register alone that does not go back by itself. -/
theorem failed_service_undone_iff {c d : Cpu M H} {vector : UInt8} {h : H} {err : CpuError}
    (hreg : c.services.get? vector = some h)
    (hfail : HostService.serve h (c.atService vector) = .error err d) :
    ∃ c', interrupt vector c = .error (serviceError vector err) c' ∧ c'.entry = c.entry ∧
      (c'.SameProcessor c ↔ d.regs.SameOthers c.regs) := by
  obtain ⟨c', hc', hregs, hflags, hhalted⟩ := interrupt_of_error hreg hfail
  refine ⟨c', hc', ?_, ?_⟩
  · simp only [entry, hregs, hflags, hhalted, Registers.putBack]
  · rw [← Registers.putBack_eq_iff, ← hregs]
    exact ⟨fun same => same.1, fun hsame => ⟨hsame, hflags, hhalted⟩⟩

end Cpu

inductive Disk where
  /-- Sets ZF and fails. -/
  | flagging
  /-- Writes AX and fails. -/
  | answering

def Disk.fault : CpuError := .service 0x13 "no disk"

instance {M : Type} : HostService M Disk where
  serve
    | .flagging => do
      modify (·.setFlag .zero true)
      throw Disk.fault
    | .answering => do
      modify (·.setReg .ax 1)
      throw Disk.fault

namespace Disk

def cpu (d : Disk) : Cpu Ram Disk :=
  ⟨{ Registers.zero with ax := 0x1234 }, .reset, .blank, Services.empty.insert 0x13 d, 0, false,
    .i8086, .silent⟩

theorem get?_cpu (d : Disk) : d.cpu.services.get? 0x13 = some d := by
  simp [cpu, Services.insert]

theorem serve_flagging (c : Cpu Ram Disk) :
    HostService.serve Disk.flagging c = .error fault (c.setFlag .zero true) := rfl

theorem serve_answering (c : Cpu Ram Disk) :
    HostService.serve Disk.answering c = .error fault (c.setReg .ax 1) := rfl

/-- A service that has only set a flag is undone. -/
theorem flagging_undone :
    flagging.cpu.services.get? 0x13 = some flagging ∧
      HostService.serve flagging (flagging.cpu.atService 0x13) =
        .error fault ((flagging.cpu.atService 0x13).setFlag .zero true) ∧
      ∃ c, Cpu.interrupt 0x13 flagging.cpu = .error fault c ∧ c.SameProcessor flagging.cpu := by
  refine ⟨get?_cpu _, serve_flagging _, ?_⟩
  obtain ⟨c, hc, -, hsame⟩ :=
    Cpu.failed_service_undone_iff (get?_cpu flagging) (serve_flagging (flagging.cpu.atService 0x13))
  exact ⟨c, hc, hsame.mpr (Cpu.sameOthers_atService _ _)⟩

/-- The answer of a service stays in AX although it has failed. -/
theorem answer_stays :
    ∃ c, Cpu.interrupt 0x13 answering.cpu = .error fault c ∧ c.regs.ax = 1 ∧
      answering.cpu.regs.ax = 0x1234 := by
  obtain ⟨c, hc, hregs, -⟩ :=
    Cpu.interrupt_of_error (get?_cpu answering) (serve_answering (answering.cpu.atService 0x13))
  refine ⟨c, hc, ?_, rfl⟩
  rw [hregs]
  rfl

end Disk
end RealMode
