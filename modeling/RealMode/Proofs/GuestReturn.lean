import RealMode.Proofs.EncodingLength
import RealMode.Proofs.InstructionOutcome
import RealMode.Proofs.InterruptFrame
import RealMode.Proofs.VectorEntry

/-! # Interrupts that return at once -/
namespace RealMode

namespace CodeView

variable {v : CodeView}

theorem op_of_iret (h : v.code 0 = iretOpcode) : (decode v).instruction.op = .iret := by
  have hopcode : v.HasOpcode .none 0 (.single .iret) :=
    .first h (by decide) (by decide) (by decide +kernel)
  rw [hopcode.decode_eq]
  rfl

end CodeView

namespace Cpu

variable {M H : Type} [Bus M]

section AtVector

variable (c : Cpu M H) (vector : UInt8)

omit [Bus M] in
theorem regs_jump (p : FarPointer) :
    (c.jump p).regs = { c.regs with cs := p.segment, ip := p.offset } := by
  cases c
  rfl

theorem regs_atVector : (c.atVector vector).regs =
    { c.regs with
      sp := c.regs.sp - 6
      cs := (readVector (c.framed c.flags.word) vector).segment
      ip := (readVector (c.framed c.flags.word) vector).offset } := by
  rw [atVector, regs_jump, regs_pushFrame, memory_pushFrame, framed_note, flags_note, regs_note]

theorem flags_atVector :
    (c.atVector vector).flags = (c.flags.set .trap false).set .interrupt false := by
  cases c
  rfl

theorem halted_atVector : (c.atVector vector).halted = false := by
  cases c
  rfl

end AtVector

/-- The vector has no service, and its entry points at an IRET. Neither the entry nor the IRET
lies where an interrupt pushes its frame. -/
structure LeadsToIret (c : Cpu M H) (vector : UInt8) : Prop where
  unserved : c.services.get? vector = none
  entry : ∀ a ∈ c.frame, ¬ InEntry vector a
  target : physical (readVector c.memory vector).segment (readVector c.memory vector).offset ∉ c.frame
  stub : Bus.getByte c.memory (readVector c.memory vector).segment
    (readVector c.memory vector).offset = iretOpcode

/-- Nothing has changed but the frame of an interrupt, and the processor runs. -/
structure FrameUsed (d c : Cpu M H) : Prop where
  regs : d.regs = c.regs
  flags : d.flags = c.flags
  running : d.halted = false
  memory : ∀ a < memorySize, a ∉ c.frame → Bus.read d.memory a = Bus.read c.memory a

variable {c : Cpu M H} {vector : UInt8}

theorem LeadsToIret.atInstruction (h : c.LeadsToIret vector) :
    c.atInstruction.LeadsToIret vector := by
  have hframe := c.frame_atInstruction
  constructor
  · rw [services_atInstruction]
    exact h.unserved
  · rw [hframe]
    exact h.entry
  · rw [hframe, memory_atInstruction]
    exact h.target
  · rw [memory_atInstruction]
    exact h.stub

theorem flags_setWord_atVector (hreserved : c.flags.bitAt 1) :
    (c.atVector vector).flags.setWord c.flags.word = c.flags := by
  apply Flags.setWord_word_of_bits hreserved
  intro n hn
  rw [flags_atVector, Flags.bitAt_set_of_ne _ _ _ (hn .interrupt),
    Flags.bitAt_set_of_ne _ _ _ (hn .trap)]

section Lawful

variable [LawfulMemory M]

theorem readVector_framed_of_apart (h : ∀ a ∈ c.frame, ¬ InEntry vector a) (image : UInt16) :
    readVector (c.framed image) vector = readVector c.memory vector := by
  apply readVector_congr
  intro a ha
  have hlt := ha.lt
  apply read_framed c image (by simp only [memorySize]; omega)
  intro hmem
  exact h a hmem ha

theorem LeadsToIret.readVector_framed (h : c.LeadsToIret vector) (image : UInt16) :
    readVector (c.framed image) vector = readVector c.memory vector :=
  readVector_framed_of_apart h.entry image

variable [HostService M H]

omit [LawfulMemory M] in
theorem step_of_iret (hrunning : c.halted = false)
    (hbyte : Bus.getByte c.memory c.regs.cs c.regs.ip = iretOpcode) :
    step c = .ok () c.atInstruction.iret := by
  have hop : c.decoded.instruction.op = .iret :=
    CodeView.op_of_iret (by simpa [CodeView.ofBus] using hbyte)
  rw [step_of_running hrunning, Instruction.execute, hop]
  rfl

theorem LeadsToIret.step_atVector (h : c.LeadsToIret vector) (hreserved : c.flags.bitAt 1) :
    ∃ d, step (c.atVector vector) = .ok () d ∧ d.FrameUsed c := by
  have hregs := c.regs_atVector vector
  rw [h.readVector_framed] at hregs
  have hbyte : Bus.getByte (c.atVector vector).memory (c.atVector vector).regs.cs
      (c.atVector vector).regs.ip = iretOpcode := by
    rw [hregs, memory_atVector, ← h.stub]
    exact read_framed c _ (physical_lt _ _) h.target
  have hstep := step_of_iret (c.halted_atVector vector) hbyte
  have hss : (c.atVector vector).atInstruction.regs.ss = c.regs.ss := by
    rw [regs_atInstruction, hregs]
  have hsp : (c.atVector vector).atInstruction.regs.sp = c.regs.sp - 6 := by
    rw [regs_atInstruction, hregs]
  have hframe : ∀ a ∈ c.frame, Bus.read (c.atVector vector).atInstruction.memory a =
      Bus.read (c.framed c.flags.word) a := by
    intro a _
    rw [memory_atInstruction, memory_atVector]
  have hiret := iret_of_frame hss hsp hframe
  rw [hiret] at hstep
  refine ⟨_, hstep, ?_⟩
  constructor
  · simp only [regs_atInstruction, hregs, Registers.putBack]
  · rw [flags_atInstruction]
    exact flags_setWord_atVector hreserved
  · exact (halted_atInstruction _).trans (c.halted_atVector vector)
  · intro a ha hout
    exact (congrArg (Bus.read · a) ((memory_atInstruction _).trans (c.memory_atVector vector))).trans
      (read_framed c _ ha hout)

/-- An interrupt whose program is a single IRET changes nothing but the frame below the stack, and
a step that raises such an interrupt skips its instruction. -/
theorem interrupt_undone_by_iret (hreserved : c.flags.bitAt 1) (h : c.LeadsToIret vector) :
    (∃ d, (interrupt vector >>= fun _ => step) c = .ok () d ∧ d.FrameUsed c) ∧
    (c.raised? = some vector →
      ∃ d, (step >>= fun _ => step) c = .ok () d ∧ d.FrameUsed
        { c with
          regs := { c.regs with ip := c.regs.ip + UInt16.ofNat c.decoded.instruction.length } }) := by
  constructor
  · obtain ⟨d, hd, hused⟩ := h.step_atVector hreserved
    exact ⟨d, (bind_of_ok (interrupt_of_no_service h.unserved)).trans hd, hused⟩
  · intro hraised
    have hat : c.atInstruction.LeadsToIret vector := h.atInstruction
    obtain ⟨d, hd, hused⟩ := hat.step_atVector (by rwa [flags_atInstruction])
    have hraise : step c = .ok () (c.atInstruction.atVector vector) :=
      (step_of_raised hraised).trans (interrupt_of_no_service hat.unserved)
    refine ⟨d, (bind_of_ok hraise).trans hd, ?_, ?_, hused.running, ?_⟩
    · rw [hused.regs, regs_atInstruction]
    · rw [hused.flags, flags_atInstruction]
    · intro a ha hout
      rw [hused.memory a ha (c.frame_atInstruction ▸ hout), memory_atInstruction]

end Lawful

/-- After a reset every vector without a service leads to an IRET, unless the stack lies on the
way. -/
theorem LeadsToIret.of_installed [LawfulMemory M] {m : M} (hmemory : c.memory = installVectors m)
    (hunserved : c.services.get? vector = none) (htable : ∀ a ∈ c.frame, 0x400 ≤ a)
    (hstub : physical defaultSegment defaultOffset ∉ c.frame) : c.LeadsToIret vector := by
  have hentry : readVector c.memory vector = ⟨defaultSegment, defaultOffset⟩ := by
    rw [hmemory, readVector_installVectors]
  constructor
  · exact hunserved
  · intro a ha hin
    have hlow := htable a ha
    have hlt := hin.lt
    omega
  · rw [hentry]
    exact hstub
  · rw [hentry, hmemory]
    exact getByte_installVectors m

/-- A processor after a reset that comes upon the byte 0F, with an odd stack that wraps. -/
def puzzled : Cpu Ram Empty :=
  { Cpu.new (Bus.setByte Ram.blank 0x1000 0x0102 0x0F) .i8086 .silent with
    regs := { Registers.zero with ss := 0x2000, sp := 0x0003, cs := 0x1000, ip := 0x0102 } }

theorem memory_puzzled :
    puzzled.memory = installVectors (Bus.setByte Ram.blank 0x1000 0x0102 0x0F) := by
  rw [puzzled, Cpu.new, reset]

theorem leadsToIret_puzzled : puzzled.LeadsToIret invalidOpcode := by
  apply LeadsToIret.of_installed memory_puzzled
  · exact Services.get?_empty _
  · decide
  · decide

theorem instruction_puzzled : puzzled.decoded.instruction = .bare .db [.imm 0x0F .byte] 1 := by
  have hbyte : Bus.getByte puzzled.memory 0x1000 0x0102 = 0x0F := by
    have hout : 0x400 ≤ physical 0x1000 0x0102 := by decide
    have hne : physical 0x1000 0x0102 ≠ physical defaultSegment defaultOffset := by decide
    rw [memory_puzzled, Bus.getByte, read_installVectors _ (physical_lt _ _) hout, if_neg hne]
    exact Bus.read_write_self _ _ (physical_lt _ _)
  let v := CodeView.ofBus puzzled.memory puzzled.regs puzzled.model 0x1000 0x0102
  have hcode : v.code 0 = 0x0F := hbyte
  have hopcode : v.HasOpcode .none 0 .undefined :=
    .first hcode (by decide) (by decide) (by decide +kernel)
  have hdata : (decode v).instruction = .bare .db [.imm (wordOfByte (v.code 0)) .byte] 1 := by
    rw [hopcode.decode_eq]
    rfl
  rw [hcode] at hdata
  exact hdata

theorem raised?_puzzled : puzzled.raised? = some invalidOpcode := by
  have hrunning : puzzled.halted = false := rfl
  rw [raised?, hrunning, if_neg Bool.false_ne_true, instruction_puzzled]
  rfl

/-- The byte that is no instruction is skipped. -/
theorem invalid_opcode_skipped :
    puzzled.flags.bitAt 1 ∧ puzzled.LeadsToIret invalidOpcode ∧
      puzzled.raised? = some invalidOpcode ∧
      (∃ d, (interrupt invalidOpcode >>= fun _ => step) puzzled = .ok () d ∧
        d.FrameUsed puzzled) ∧
      ∃ d, (step >>= fun _ => step) puzzled = .ok () d ∧
        d.regs = { Registers.zero with ss := 0x2000, sp := 0x0003, cs := 0x1000, ip := 0x0103 } ∧
        d.flags = .reset ∧ d.halted = false := by
  have hreserved : puzzled.flags.bitAt 1 := by decide
  obtain ⟨hundone, hskipped⟩ := interrupt_undone_by_iret hreserved leadsToIret_puzzled
  obtain ⟨d, hd, hused⟩ := hskipped raised?_puzzled
  refine ⟨hreserved, leadsToIret_puzzled, raised?_puzzled, hundone, d, hd, ?_, ?_, hused.running⟩
  · rw [hused.regs, instruction_puzzled]
    rfl
  · exact hused.flags

end Cpu
end RealMode
