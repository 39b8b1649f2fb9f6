import RealMode.Proofs.GuestReturn
import RealMode.Proofs.InstructionFootprint
import RealMode.Proofs.ServedErrors

/-! # What instructions and steps change -/
namespace RealMode

namespace Cpu

variable {M H : Type} [Bus M]

section AtInstruction

variable (c : Cpu M H)

theorem value_atInstruction (o : Operand) : c.atInstruction.value o = c.value o := by
  cases o with
  | reg8 r => exact congrArg wordOfByte (c.get8_atInstruction r)
  | reg16 r =>
    cases r <;> simp only [value, Registers.get, regs_atInstruction]
  | seg s =>
    cases s <;> simp only [value, Registers.getSeg, regs_atInstruction]
  | mem m w =>
    cases w <;> simp only [value, readElement, memory_atInstruction]
  | _ => rfl

theorem model_atInstruction : c.atInstruction.model = c.model := (Follows.refl c).atInstruction.model

theorem below_atInstruction (n : Nat) : c.atInstruction.below n = c.below n := by
  simp only [below, regs_atInstruction]

theorem elements_atInstruction (w : Width) (n : Nat) :
    c.atInstruction.elements w n = c.elements w n := by
  simp only [elements, direction, regs_atInstruction, flags_atInstruction]

/-- What an instruction may change can be told before IP has moved behind it. -/
theorem footprint_atInstruction (i : Instruction) :
    i.footprint c.atInstruction = i.footprint c := by
  have hcount : i.elementCount c.atInstruction = i.elementCount c := by
    simp only [Instruction.elementCount, regs_atInstruction]
  have hpushes : i.pushes c.atInstruction = i.pushes c := by
    simp only [Instruction.pushes, value_atInstruction]
  have hstored : i.stored c.atInstruction = i.stored c := by
    simp only [Instruction.stored, elements_atInstruction, hcount]
  have hshift : i.shiftCount c.atInstruction = i.shiftCount c := by
    simp only [Instruction.shiftCount, value_atInstruction, model_atInstruction]
  simp only [Instruction.footprint, Instruction.changes, below_atInstruction, hpushes, hstored,
    hcount, hshift]

end AtInstruction

/-- Nothing but INC AX. -/
def incCode : CodeView := ⟨fun _ => 0x40, 0, .zero, .i8086⟩

variable [HostService M H]

theorem execute_of_quiet (v : CodeView) {c : Cpu M H}
    (hquiet : (decode v).instruction.raises? c = none) :
    ∃ d, (decode v).instruction.execute c = .ok () d ∧
      d.Within ((decode v).instruction.footprint c) c := by
  have hends := ends_execute (fits_decode v) c
  rw [hquiet] at hends
  cases hends with
  | completed hr =>
    obtain ⟨⟨⟩, d, hd, -⟩ := hr
    exact ⟨d, hd, Stays.stays_execute (fits_decode v) hquiet () d hd⟩

/-- A decoded instruction that raises no interrupt changes its own flags only. -/
theorem flags_changed_by_execute (v : CodeView) (c : Cpu M H) (hreserved : c.flags.bitAt 1)
    (hquiet : (decode v).instruction.raises? c = none) :
    ∃ d, (decode v).instruction.execute c = .ok () d ∧
      ∀ n, d.flags.bitAt n ≠ c.flags.bitAt n →
        ∃ a ∈ (decode v).instruction.changes c, a.bit = n := by
  obtain ⟨d, hd, hwithin⟩ := execute_of_quiet v hquiet
  refine ⟨d, hd, ?_⟩
  intro n hchanged
  by_cases hown : ∃ a ∈ (decode v).instruction.changes c, a.bit = n
  · exact hown
  · apply absurd (hwithin.flags hreserved n _) hchanged
    intro a ha hbit
    exact hown ⟨a, ha, hbit⟩

/-- INC in a chain of additions keeps the carry. -/
theorem carry_kept_by_inc :
    (decode incCode).instruction.raises? puzzled = none ∧
      ∃ d, (decode incCode).instruction.execute puzzled = .ok () d ∧
        d.flags.get .carry = puzzled.flags.get .carry := by
  have hinc : (decode incCode).instruction.op = .inc := by decide +kernel
  have hquiet : (decode incCode).instruction.raises? puzzled = none := by
    rw [Instruction.raises?, hinc]
  obtain ⟨d, hd, hown⟩ := flags_changed_by_execute incCode puzzled (by decide) hquiet
  refine ⟨hquiet, d, hd, ?_⟩
  rw [Flags.get_eq_bitAt, Flags.get_eq_bitAt]
  by_cases hcarry : d.flags.bitAt Flag.carry.bit = puzzled.flags.bitAt Flag.carry.bit
  · exact hcarry
  · obtain ⟨a, ha, hbit⟩ := hown _ hcarry
    rw [Instruction.changes, hinc, Flag.bit_inj.mp hbit] at ha
    exact absurd ha (by decide)

/-- Where a step may write: nowhere while halted, below the stack where it raises an interrupt, and
else what its instruction writes, pushes and stores. -/
def mayWrite (c : Cpu M H) : List Nat :=
  if c.halted then []
  else
    match c.raised? with
    | some _ => c.below 3
    | none =>
      let i := c.decoded.instruction
      i.written.flatMap Operand.cells ++ c.below (i.pushes c) ++ i.stored c

theorem step_of_quiet_within {c : Cpu M H} (hrunning : c.halted = false)
    (hquiet : c.raised? = none) :
    ∃ d, step c = .ok () d ∧ d.Within (c.decoded.instruction.footprint c) c.atInstruction := by
  have hraises : c.decoded.instruction.raises? c.atInstruction = none := by
    rwa [raised?, hrunning, if_neg Bool.false_ne_true] at hquiet
  obtain ⟨d, hd, hwithin⟩ := execute_of_quiet _ hraises
  refine ⟨d, (step_of_running hrunning).trans hd, ?_⟩
  rw [← footprint_atInstruction]
  exact hwithin

theorem step_of_raised_unserved {c : Cpu M H} (hc : c.Unserved) {vector : UInt8}
    (hraised : c.raised? = some vector) : step c = .ok () (c.atInstruction.atVector vector) := by
  have hat : c.atInstruction.services.get? vector = none := by
    rw [services_atInstruction]
    exact hc vector
  exact (step_of_raised hraised).trans (interrupt_of_no_service hat)

/-- A step without services writes nowhere else. -/
theorem step_writes_confined [LawfulBus M] [QuietPorts M] {c : Cpu M H} (hc : c.Unserved) :
    ∃ d, step c = .ok () d ∧
      ∀ a < memorySize, a ∉ c.mayWrite → Bus.read d.memory a = Bus.read c.memory a := by
  by_cases hhalted : c.halted
  · exact ⟨c, step_of_halted hhalted, fun _ _ _ => rfl⟩
  · have hrunning := Bool.eq_false_iff.mpr hhalted
    unfold mayWrite
    rw [if_neg hhalted]
    cases hraised : c.raised? with
    | some vector =>
      refine ⟨_, step_of_raised_unserved hc hraised, ?_⟩
      intro a ha hout
      rw [memory_atVector, ← c.memory_atInstruction]
      apply read_framed _ _ ha
      rwa [frame_atInstruction, ← below_three]
    | none =>
      obtain ⟨d, hd, hwithin⟩ := step_of_quiet_within hrunning hraised
      refine ⟨d, hd, ?_⟩
      intro a ha hout
      rw [← c.memory_atInstruction]
      exact hwithin.memory.read_eq ha hout

/-- The byte that is no instruction has the six bytes below the stack written, around the end of
the segment. -/
theorem invalid_opcode_writes_frame :
    puzzled.Unserved ∧ ∃ d, step puzzled = .ok () d ∧ ∀ a < memorySize,
      a ∉ [0x20002, 0x20001, 0x20000, 0x2FFFF, 0x2FFFE, 0x2FFFD] →
        Bus.read d.memory a = Bus.read puzzled.memory a := by
  have hc : puzzled.Unserved := Services.get?_empty
  obtain ⟨d, hd, hconfined⟩ := step_writes_confined hc
  have hwrite : puzzled.mayWrite = [0x20002, 0x20001, 0x20000, 0x2FFFF, 0x2FFFE, 0x2FFFD] := by
    have hrunning : puzzled.halted = false := rfl
    rw [mayWrite, hrunning, if_neg Bool.false_ne_true, raised?_puzzled]
    decide
  rw [hwrite] at hconfined
  exact ⟨hc, d, hd, hconfined⟩

end Cpu
end RealMode
