import RealMode.Proofs.InterruptFrame

/-! # The return from a service -/
namespace RealMode

def Flag.isControl : Flag → Bool
  | trap | interrupt | direction => true
  | carry | parity | auxiliary | zero | sign | overflow => false

namespace Flags

theorem get_mergeStatus (f : Flags) (bits : UInt32) (a : Flag) :
    (f.mergeStatus bits).get a = if a.isControl then f.get a else Flags.get ⟨bits⟩ a := by
  have hmask : statusMask.toBitVec.getLsbD a.bit = !a.isControl := by cases a <;> decide
  rw [get_eq_bitAt, mergeStatus, bitAt_replace, hmask]
  by_cases hcontrol : a.isControl
  · rw [if_pos hcontrol, if_neg (by simp [hcontrol]), get_eq_bitAt]
  · rw [if_neg hcontrol, if_pos (by simp [hcontrol]), get_eq_getLsbD]

end Flags

namespace Cpu

variable {M H : Type} [Bus M]

theorem hostReturn_eq (d : Cpu M H) :
    d.hostReturn = d.iret.setFlags (d.iret.flags.mergeStatus d.flags.bits) := rfl

theorem regs_atService (c : Cpu M H) (vector : UInt8) :
    (c.atService vector).regs = { c.regs with sp := c.regs.sp - 6 } :=
  (regs_pushFrame _).trans (by rw [regs_note])

/-- The state in which the caller `c` goes on once its service has ended in state `d`. -/
def resumed (c d : Cpu M H) (vector : UInt8) (h : H) : Cpu M H :=
  { d with
    regs := d.regs.putBack c.regs
    flags := (d.flags.setWord c.flags.word).mergeStatus d.flags.bits
    services := d.services.insertIfNew vector h }

omit [Bus M] in
theorem get_flags_resumed (c d : Cpu M H) (vector : UInt8) (h : H) (a : Flag) :
    (c.resumed d vector h).flags.get a = if a.isControl then c.flags.get a else d.flags.get a :=
  (Flags.get_mergeStatus _ _ a).trans (by rw [Flags.get_setWord_word])

variable [LawfulMemory M] [HostService M H] {c d : Cpu M H} {vector : UInt8} {h : H}

theorem interrupt_of_return (hreg : c.services.get? vector = some h)
    (hserve : HostService.serve h (c.atService vector) = .ok () d)
    (hss : d.regs.ss = (c.atService vector).regs.ss)
    (hsp : d.regs.sp = (c.atService vector).regs.sp)
    (hframe : ∀ a ∈ c.frame, Bus.read d.memory a = Bus.read (c.atService vector).memory a) :
    interrupt vector c = .ok () (c.resumed d vector h) := by
  rw [regs_atService] at hss hsp
  rw [memory_atService] at hframe
  let k : Cpu M H := { d with services := d.services.insertIfNew vector h }
  have hk : k.iret =
      { k with regs := d.regs.putBack c.regs, flags := d.flags.setWord c.flags.word } :=
    iret_of_frame (d := k) hss hsp hframe
  have hreturn : k.hostReturn = c.resumed d vector h := by
    rw [hostReturn_eq, hk]
    rfl
  rw [interrupt_of_service hreg, hserve, ← hreturn]
  rfl

/-- Whatever a service does, if it succeeds and finds the stack again as it has received it, the
interrupt returns to its caller with TF, IF and DF of the caller, and with all the rest that the
service leaves. -/
theorem served_interrupt_returns (hreg : c.services.get? vector = some h)
    (hserve : HostService.serve h (c.atService vector) = .ok () d)
    (hss : d.regs.ss = (c.atService vector).regs.ss)
    (hsp : d.regs.sp = (c.atService vector).regs.sp)
    (hframe : ∀ a ∈ c.frame, Bus.read d.memory a = Bus.read (c.atService vector).memory a) :
    ∃ e, interrupt vector c = .ok () e ∧
      e.regs = { d.regs with cs := c.regs.cs, ip := c.regs.ip, sp := c.regs.sp } ∧
      (∀ a, e.flags.get a = if a.isControl then c.flags.get a else d.flags.get a) ∧
      e.halted = d.halted ∧ e.memory = d.memory := by
  have hreturn := interrupt_of_return hreg hserve hss hsp hframe
  exact ⟨c.resumed d vector h, hreturn, rfl, c.get_flags_resumed d vector h, rfl, rfl⟩

end Cpu

/-- A service that leaves nothing but the stack as it was. -/
inductive Restless where
  | restless

namespace Restless

def disturb (c : Cpu Ram Restless) : Cpu Ram Restless :=
  { c with
    regs := { c.regs with ax := 0x4242, bp := 7, ds := 8, cs := 9, ip := 10 }
    flags := ((c.flags.set .trap true).set .direction false).set .carry true
    memory := Bus.setByte c.memory 0 0x84 0xFF
    halted := true }

instance : HostService Ram Restless where
  serve _ := modify disturb

theorem serve_eq (c : Cpu Ram Restless) : HostService.serve restless c = .ok () (disturb c) := rfl

theorem regs_disturb (c : Cpu Ram Restless) :
    (disturb c).regs = { c.regs with ax := 0x4242, bp := 7, ds := 8, cs := 9, ip := 10 } := by
  cases c
  rfl

/-- A caller with an odd stack around the end of its segment. -/
def cpu : Cpu Ram Restless :=
  ⟨{ Registers.zero with ss := 0x2000, sp := 0x0003, cs := 0x1000, ip := 0x0102 },
    (Flags.reset.set .interrupt true).set .direction true, .blank,
    Services.empty.insert 0x21 restless, 0, false, .i8086, .silent⟩

theorem get?_cpu : cpu.services.get? 0x21 = some restless := by
  simp [cpu, Services.insert]

theorem read_disturb (c : Cpu Ram Restless) {a : Nat} (ha : a ∈ cpu.frame) :
    Bus.read (disturb c).memory a = Bus.read c.memory a := by
  have hne : ∀ a ∈ cpu.frame, a ≠ physical 0 0x84 := by decide
  exact Bus.read_write_of_ne _ _ (physical_lt _ _) (cpu.lt_of_mem_frame ha) (hne a ha)

/-- The caller finds its own CS, IP, SP, TF, IF and DF, although all but SP were changed. -/
theorem restless_service_returns :
    cpu.services.get? 0x21 = some restless ∧
      HostService.serve restless (cpu.atService 0x21) = .ok () (disturb (cpu.atService 0x21)) ∧
      ∃ e, Cpu.interrupt 0x21 cpu = .ok () e ∧
        e.regs = { Registers.zero with
          ax := 0x4242, bp := 7, ds := 8, ss := 0x2000, sp := 0x0003, cs := 0x1000, ip := 0x0102 } ∧
        e.flags.get .trap = false ∧ e.flags.get .interrupt = true ∧
        e.flags.get .direction = true ∧ e.flags.get .carry = true ∧ e.halted = true := by
  have hserve : HostService.serve restless (cpu.atService 0x21) =
      .ok () (disturb (cpu.atService 0x21)) := serve_eq _
  obtain ⟨e, he, hregs, hflags, hhalted, -⟩ := Cpu.served_interrupt_returns get?_cpu hserve
    (regs_disturb _ ▸ rfl) (regs_disturb _ ▸ rfl) fun a ha => read_disturb _ ha
  refine ⟨get?_cpu, hserve, e, he, ?_, ?_, ?_, ?_, ?_, hhalted⟩
  · rw [hregs, regs_disturb, Cpu.regs_atService]
    rfl
  · exact (hflags .trap).trans (by decide)
  · exact (hflags .interrupt).trans (by decide)
  · exact (hflags .direction).trans (by decide)
  · refine (hflags .carry).trans ?_
    exact Flags.get_set _ _ _ _

end Restless
end RealMode
