import RealMode.Proofs.Pc.ExitCode

/-! # Answered calls -/
namespace RealMode

namespace Cpu

variable {M H : Type} (c : Cpu M H)

theorem memory_enterContext (x : ExecutionContext) : (c.enterContext x).memory = c.memory := by
  cases c
  rfl

theorem halted_enterContext (x : ExecutionContext) : (c.enterContext x).halted = false := by
  cases c
  rfl

variable [Bus M]

theorem regs_hostReturn : ∃ sp cs ip,
    c.hostReturn.regs = { c.regs with sp := sp, cs := cs, ip := ip } := by
  rw [hostReturn_eq, iret_eq]
  exact ⟨_, _, _, rfl⟩

theorem halted_hostReturn : c.hostReturn.halted = c.halted := by
  cases c
  rfl

theorem get_flags_hostReturn {a : Flag} (h : a.isControl = false) :
    c.hostReturn.flags.get a = c.flags.get a := by
  have hstatus : c.hostReturn.flags = c.iret.flags.mergeStatus c.flags.bits := rfl
  rw [hstatus, Flags.get_mergeStatus, h, if_neg Bool.false_ne_true]

theorem run_nothing [HostService M H] : ∃ s, run (some 0) c = .ok s c := by
  have hspent : (some 0).any (· ≤ c.steps - c.steps) = true :=
    decide_eq_true (Nat.zero_le (c.steps - c.steps))
  show ∃ s, runFrom c.steps (some 0) 1 c = .ok s c
  rw [runFrom_succ_apply, if_pos hspent]
  split
  next => exact ⟨_, rfl⟩
  next => exact ⟨_, rfl⟩

end Cpu

namespace Pc

/-- The state in which the caller goes on behind its call of a service. -/
def answered (c : Cpu Board Service) (vector : UInt8) (s : Service) : Cpu Board Service :=
  let d := s.serve (c.atService vector)
  Cpu.hostReturn { d with services := d.services.insertIfNew vector s }

section Answered

variable (c : Cpu Board Service) (vector : UInt8) (s : Service)

theorem memory_answered :
    (answered c vector s).memory = (s.serve (c.atService vector)).memory :=
  memory_hostReturn _

theorem halted_answered :
    (answered c vector s).halted = (s.serve (c.atService vector)).halted :=
  Cpu.halted_hostReturn _

theorem regs_answered : ∃ sp cs ip, (answered c vector s).regs =
    { (s.serve (c.atService vector)).regs with sp := sp, cs := cs, ip := ip } :=
  Cpu.regs_hostReturn _

theorem get_answered {r : Reg16} (h : r ≠ .sp) :
    (answered c vector s).regs.get r = (s.serve (c.atService vector)).regs.get r := by
  obtain ⟨sp, cs, ip, hregs⟩ := regs_answered c vector s
  rw [hregs]
  cases r with
  | sp => exact absurd rfl h
  | _ => rfl

theorem get8_answered (r : Reg8) :
    (answered c vector s).regs.get8 r = (s.serve (c.atService vector)).regs.get8 r := by
  have hwhole : r.whole ≠ .sp := by cases r <;> decide
  rw [Registers.get8, Registers.get8, get_answered c vector s hwhole]

theorem getSeg_answered {g : SegReg} (h : g ≠ .cs) :
    (answered c vector s).regs.getSeg g = (s.serve (c.atService vector)).regs.getSeg g := by
  obtain ⟨sp, cs, ip, hregs⟩ := regs_answered c vector s
  rw [hregs]
  cases g with
  | cs => exact absurd rfl h
  | _ => rfl

theorem get_flags_answered {a : Flag} (h : a.isControl = false) :
    (answered c vector s).flags.get a = (s.serve (c.atService vector)).flags.get a :=
  Cpu.get_flags_hostReturn _ h

variable {c vector s}

theorem interrupt_eq_answered (hreg : c.services.get? vector = some s) :
    Cpu.interrupt vector c = .ok () (answered c vector s) :=
  (Cpu.interrupt_of_service hreg).trans rfl

end Answered

theorem Service.get?_dos : table.get? 0x21 = some dos :=
  get?_table_of_lastPut? (by decide +kernel)

namespace Machine

variable {m : Machine Service} {vector : UInt8}

theorem step_of_raised (hraised : m.cpu.raised? = some vector) {c : Cpu Board Service}
    (h : Cpu.interrupt vector m.cpu.atInstruction = .ok () c) :
    Machine.step m = .ok () ⟨c, m.config, m.program⟩ :=
  liftCpu_apply ((Cpu.step_of_raised hraised).trans h)

theorem Sound.services_atInstruction (hm : m.Sound) :
    m.cpu.atInstruction.services = Service.table :=
  (Cpu.services_atInstruction _).trans hm.installed.services

theorem step_eq_answered (hm : m.Sound) (hcalls : m.cpu.Calls vector) {s : Service}
    (hs : Service.table.get? vector = some s) :
    Machine.step m = .ok () ⟨answered m.cpu.atInstruction vector s, m.config, m.program⟩ :=
  step_of_raised hcalls.raised?_eq (interrupt_eq_answered (hm.services_atInstruction ▸ hs))

/-- A program is to go on from an offset, with these registers and an empty stack. -/
def callContext (ip ax dx ds : UInt16) : ExecutionContext :=
  ⟨0x0700, ip, ds, some 0x0700, none, some stackTop, [(.ax, ax), (.dx, dx)], some 0⟩

def redirect (m : Machine Service) (ip ax dx ds : UInt16) : Machine Service :=
  after (Operation.execute (callContext ip ax dx ds)).action m

section Redirect

variable (m : Machine Service) (ip ax dx ds : UInt16)

theorem reachable_redirect (h : m.Reachable) : (m.redirect ip ax dx ds).Reachable :=
  .operation h (.execute (callContext ip ax dx ds))

theorem cpu_redirect : (m.redirect ip ax dx ds).cpu =
    m.cpu.enterContext (callContext ip ax dx ds) := by
  obtain ⟨s, hrun⟩ := Cpu.run_nothing (m.cpu.enterContext (callContext ip ax dx ds))
  have hexecute : execute (callContext ip ax dx ds) m =
      .ok s ⟨m.cpu.enterContext (callContext ip ax dx ds), m.config, m.program⟩ :=
    liftCpu_apply hrun
  rw [redirect, Operation.action, after_discard, after, hexecute]

theorem regs_redirect : (m.redirect ip ax dx ds).cpu.regs = { m.cpu.regs with
    ax := ax, dx := dx, sp := stackTop, cs := 0x0700, ip := ip, ds := ds, es := ds,
    ss := 0x0700 } := by
  rw [cpu_redirect, Cpu.enterContext, Cpu.regs_note]
  rfl

theorem memory_redirect : (m.redirect ip ax dx ds).cpu.memory = m.cpu.memory := by
  rw [cpu_redirect, Cpu.memory_enterContext]

theorem frame_redirect : (m.redirect ip ax dx ds).cpu.frame =
    (List.range 6).map fun i => physical 0x0700 (stackTop - UInt16.ofNat (i + 1)) := by
  rw [Cpu.frame, regs_redirect]

variable {m ip}

theorem calls_redirect {vector : UInt8} (hopcode : Bus.getByte m.cpu.memory 0x0700 ip = 0xCD)
    (hvector : Bus.getByte m.cpu.memory 0x0700 (ip + 1) = vector) :
    (m.redirect ip ax dx ds).cpu.Calls vector := by
  apply Cpu.calls_of_bytes
  · rw [cpu_redirect, Cpu.halted_enterContext]
  · rw [memory_redirect, regs_redirect]
    exact hopcode
  · rw [memory_redirect, regs_redirect]
    exact hvector

end Redirect

def callsImage (first second : UInt8) : ByteArray := ⟨#[0xCD, first, 0xCD, second]⟩

def poised (first second : UInt8) (ax dx ds : UInt16) : Machine Service :=
  (after (load (callsImage first second) "") (new .standard .silent)).redirect entryOffset ax dx ds

section Poised

variable (first second : UInt8) (ax dx ds : UInt16)

theorem size_callsImage_le : (callsImage first second).size ≤ imageLimit := by
  have hsize : (callsImage first second).size = 4 := rfl
  rw [hsize]
  decide

theorem load_callsImage (m : Machine Service) : load (callsImage first second) "" m =
    .ok () ⟨startProgram m.cpu m.config.loadSegment ⟨callsImage first second, ""⟩, m.config,
      some ⟨callsImage first second, ""⟩⟩ :=
  load_eq_ok m "" (show 0 < 4 by omega) (size_callsImage_le first second)

theorem reachable_poised : (poised first second ax dx ds).Reachable :=
  reachable_redirect _ _ _ _ _
    (.operation (.new .standard .silent) (.load (callsImage first second) ""))

theorem regs_poised : (poised first second ax dx ds).cpu.regs =
    { entryRegisters 0x0700 with ax := ax, dx := dx, ds := ds, es := ds } := by
  rw [poised, regs_redirect, after, load_callsImage]
  dsimp only
  rw [regs_startProgram]
  rfl

theorem memory_poised : (poised first second ax dx ds).cpu.memory =
    placeProgram (new .standard .silent : Machine Service).cpu.memory 0x0700
      ⟨callsImage first second, ""⟩ := by
  rw [poised, memory_redirect, after, load_callsImage]
  exact memory_startProgram _ _ _

theorem getByte_poised {i : Nat} (hi : i < 4) :
    Bus.getByte (poised first second ax dx ds).cpu.memory 0x0700 (entryOffset + UInt16.ofNat i) =
      (callsImage first second)[i] := by
  have hstack : i < stackIndex := Nat.lt_trans hi (by decide)
  rw [memory_poised]
  exact (getByte_placeProgram _ _ (p := ⟨callsImage first second, ""⟩)
    (size_callsImage_le first second) hi).trans (if_pos hstack)

theorem calls_poised : (poised first second ax dx ds).cpu.Calls first := by
  have hbyte := fun i hi => getByte_poised first second ax dx ds (i := i) hi
  rw [poised] at hbyte ⊢
  rw [memory_redirect] at hbyte
  exact calls_redirect ax dx ds (hbyte 0 (by omega)) (hbyte 1 (by omega))

end Poised

end Machine
end Pc
end RealMode
