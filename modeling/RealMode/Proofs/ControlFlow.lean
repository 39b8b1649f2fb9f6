import RealMode.Proofs.BranchTarget
import RealMode.Proofs.StepFootprint

/-! # Control flow -/
namespace RealMode

/-- Whether a relative branch is taken. The loops count CX down first. -/
def Instruction.taken {M H : Type} (i : Instruction) (c : Cpu M H) : Bool :=
  match i.op with
  | .jcc cond => c.flags.holds cond
  | .loop => c.regs.cx - 1 != 0
  | .loope => c.regs.cx - 1 != 0 && c.flags.get .zero
  | .loopne => c.regs.cx - 1 != 0 && !c.flags.get .zero
  | .jcxz => c.regs.cx = 0
  | _ => true

namespace Cpu

variable {M H : Type} [Bus M]

section Place

variable (c : Cpu M H)

def nextIp : UInt16 := c.regs.ip + UInt16.ofNat c.decoded.instruction.length

def displacement : UInt16 :=
  (CodeView.ofBus c.memory c.regs c.model c.regs.cs c.regs.ip).displacement

theorem cs_atInstruction : c.atInstruction.regs.cs = c.regs.cs := by rw [regs_atInstruction]

theorem ip_atInstruction : c.atInstruction.regs.ip = c.nextIp := by rw [regs_atInstruction, nextIp]

theorem taken_atInstruction (i : Instruction) : i.taken c.atInstruction = i.taken c := by
  simp only [Instruction.taken, regs_atInstruction, flags_atInstruction]

end Place

/-- The interrupt has pushed flags, CS and the place behind the instruction, and has changed nothing
else but TF, IF and where the processor goes on. -/
structure Interrupted (vector : UInt8) (d c : Cpu M H) : Prop where
  flagsPushed : Bus.getWord d.memory c.regs.ss (c.regs.sp - 2) = c.flags.word
  csPushed : Bus.getWord d.memory c.regs.ss (c.regs.sp - 4) = c.regs.cs
  ipPushed : Bus.getWord d.memory c.regs.ss (c.regs.sp - 6) = c.nextIp
  entry : FarPointer.mk d.regs.cs d.regs.ip = readVector d.memory vector
  flags : d.flags = (c.flags.set .trap false).set .interrupt false
  regs : d.regs = { c.regs with sp := c.regs.sp - 6, cs := d.regs.cs, ip := d.regs.ip }

structure FlowsFrom (d c : Cpu M H) : Prop where
  sequential : c.raised? = none → c.decoded.instruction.op.transfers = false →
    c.decoded.instruction.movesToCs = false → d.regs.cs = c.regs.cs ∧ d.regs.ip = c.nextIp
  relative : c.decoded.instruction.isRelative → d.regs.cs = c.regs.cs ∧
    d.regs.ip = if c.decoded.instruction.taken c then c.nextIp + c.displacement else c.nextIp
  raised : ∀ vector, c.raised? = some vector → d.Interrupted vector c

theorem operand_of_relative {c : Cpu M H} (h : c.decoded.instruction.isRelative) :
    c.decoded.instruction.operands[0]? = some (.near (c.nextIp + c.displacement)) :=
  CodeView.operand_of_relative h

theorem interrupted_atVector [LawfulMemory M] (c : Cpu M H) (vector : UInt8) :
    (c.atInstruction.atVector vector).Interrupted vector c := by
  have hregs := c.atInstruction.regs_atVector vector
  have hmemory := c.atInstruction.memory_atVector vector
  obtain ⟨hip, hcs, hflags⟩ := c.atInstruction.getWord_framed c.atInstruction.flags.word
  have hss : c.atInstruction.regs.ss = c.regs.ss := by rw [regs_atInstruction]
  have hsp : c.atInstruction.regs.sp = c.regs.sp := by rw [regs_atInstruction]
  rw [hss, hsp] at hip hcs hflags
  constructor
  · rw [hmemory, hflags, flags_atInstruction]
  · rw [hmemory, hcs, cs_atInstruction]
  · rw [hmemory, hip, ip_atInstruction]
  · rw [hregs, hmemory]
  · rw [flags_atVector, flags_atInstruction]
  · rw [hregs, regs_atInstruction]

theorem branch_of_near {i : Instruction} {t : UInt16} (ht : i.operands[0]? = some (.near t))
    (c : Cpu M H) : i.branch c = .ok () (c.setIp t) := by
  simp only [Instruction.branch, Instruction.arg, ht]
  rfl

theorem loop_of_near {i : Instruction} {t : UInt16} (ht : i.operands[0]? = some (.near t))
    (goesOn : Flags → Bool) (c : Cpu M H) :
    ∃ d, i.loop goesOn c = .ok () d ∧ d.regs.cs = c.regs.cs ∧
      d.regs.ip = if c.regs.cx - 1 != 0 && goesOn c.flags then t else c.regs.ip := by
  let e := c.setReg .cx (c.regs.cx - 1)
  have hloop : i.loop goesOn c =
      (if c.regs.cx - 1 != 0 && goesOn c.flags then i.branch else pure () : Exec M H Unit) e := rfl
  rw [hloop]
  by_cases hgoes : c.regs.cx - 1 != 0 && goesOn c.flags
  · rw [if_pos hgoes, if_pos hgoes]
    exact ⟨_, branch_of_near ht e, rfl, rfl⟩
  · rw [if_neg hgoes, if_neg hgoes]
    exact ⟨e, rfl, rfl, rfl⟩

theorem branch_if_of_near {i : Instruction} {t : UInt16} (ht : i.operands[0]? = some (.near t))
    {p : Prop} [Decidable p] (c : Cpu M H) :
    ∃ d, (if p then i.branch else pure () : Exec M H Unit) c = .ok () d ∧
      d.regs.cs = c.regs.cs ∧ d.regs.ip = if p then t else c.regs.ip := by
  by_cases hp : p
  · rw [if_pos hp, if_pos hp]
    exact ⟨_, branch_of_near ht c, rfl, rfl⟩
  · rw [if_neg hp, if_neg hp]
    exact ⟨c, rfl, rfl, rfl⟩

theorem raises?_of_isRelative {i : Instruction} (h : i.isRelative) (c : Cpu M H) :
    i.raises? c = none := by
  have hbranch := Instruction.isNearBranch_of_isRelative h
  obtain ⟨op, operands, repeated, lock, override, length⟩ := i
  cases op with
  | jcc | jmp | call | loop | loope | loopne | jcxz => rfl
  | _ => cases hbranch

variable [HostService M H]

theorem execute_of_relative {i : Instruction} {t : UInt16} (h : i.isRelative)
    (ht : i.operands[0]? = some (.near t)) (c : Cpu M H) :
    ∃ d, i.execute c = .ok () d ∧ d.regs.cs = c.regs.cs ∧
      d.regs.ip = if i.taken c then t else c.regs.ip := by
  have hbranch := Instruction.isNearBranch_of_isRelative h
  obtain ⟨op, operands, repeated, lock, override, length⟩ := i
  cases op with
  | jcc cond => exact branch_if_of_near ht c
  | jmp => exact ⟨_, branch_of_near ht c, rfl, rfl⟩
  | call =>
    refine ⟨(c.push c.regs.ip).setIp t, ?_, rfl, rfl⟩
    simp only [Instruction.execute, Instruction.arg, ht]
    rfl
  | loop =>
    obtain ⟨d, hd, hcs, hip⟩ := loop_of_near ht (fun _ => true) c
    rw [Bool.and_true] at hip
    exact ⟨d, hd, hcs, hip⟩
  | loope => exact loop_of_near ht (fun f => f.get .zero) c
  | loopne => exact loop_of_near ht (fun f => !f.get .zero) c
  | jcxz =>
    obtain ⟨d, hd, hcs, hip⟩ := branch_if_of_near ht (p := c.regs.cx = 0) c
    refine ⟨d, hd, hcs, hip.trans ?_⟩
    simp only [Instruction.taken, decide_eq_true_eq]
  | _ => cases hbranch

theorem flows_of_quiet {c : Cpu M H} (hrunning : c.halted = false) (hquiet : c.raised? = none) :
    ∃ d, step c = .ok () d ∧ d.FlowsFrom c := by
  obtain ⟨d, hd, hwithin⟩ := step_of_quiet_within hrunning hquiet
  refine ⟨d, hd, ?_⟩
  constructor
  · intro _ htransfers hmoves
    have hwritten : .seg .cs ∉ c.decoded.instruction.written := by
      intro hmem
      have hmov := CodeView.movesToCs_of_written hmem
      exact absurd (hmoves.symm.trans hmov) Bool.false_ne_true
    have hstill : (c.decoded.instruction.footprint c).moves = false := by
      simp only [Instruction.footprint, htransfers, Bool.false_or]
      simpa using hwritten
    obtain ⟨hcs, hip⟩ := hwithin.place hstill
    exact ⟨hcs.trans c.cs_atInstruction, hip.trans c.ip_atInstruction⟩
  · intro hrelative
    obtain ⟨e, he, hcs, hip⟩ := execute_of_relative hrelative (operand_of_relative hrelative)
      c.atInstruction
    rw [step_of_running hrunning, he] at hd
    cases hd
    rw [taken_atInstruction, ip_atInstruction] at hip
    exact ⟨hcs.trans c.cs_atInstruction, hip⟩
  · intro vector hvector
    rw [hquiet] at hvector
    cases hvector

theorem flows_of_raised [LawfulMemory M] {c : Cpu M H} (hc : c.Unserved) {vector : UInt8}
    (hraised : c.raised? = some vector) : ∃ d, step c = .ok () d ∧ d.FlowsFrom c := by
  refine ⟨_, step_of_raised_unserved hc hraised, ?_⟩
  constructor
  · intro hquiet
    rw [hquiet] at hraised
    cases hraised
  · intro hrelative
    have hrunning := halted_of_raised hraised
    rw [raised?, hrunning, raises?_of_isRelative hrelative] at hraised
    cases hraised
  · intro w hw
    obtain rfl : vector = w := Option.some.inj (hraised.symm.trans hw)
    exact c.interrupted_atVector vector

/-- A halted processor stays as it is. On a running one a step goes on behind the instruction, to
the target of its branch or to the program of the interrupt that it raises. -/
theorem step_accounts_for_flow [LawfulMemory M] {c : Cpu M H} (hc : c.Unserved) :
    ∃ d, step c = .ok () d ∧ (c.halted = true → d = c) ∧ (c.halted = false → d.FlowsFrom c) := by
  by_cases hhalted : c.halted
  · refine ⟨c, step_of_halted hhalted, fun _ => rfl, ?_⟩
    intro hrunning
    exact absurd (hhalted.symm.trans hrunning) (by decide)
  · have hflows : ∃ d, step c = .ok () d ∧ d.FlowsFrom c := by
      cases hraised : c.raised? with
      | some vector => exact flows_of_raised hc hraised
      | none => exact flows_of_quiet (Bool.eq_false_iff.mpr hhalted) hraised
    obtain ⟨d, hd, hflows⟩ := hflows
    exact ⟨d, hd, fun h => absurd h hhalted, fun _ => hflows⟩

def atNop (halted : Bool) : Cpu Ram Empty :=
  ⟨{ Registers.zero with
      es := 0x1000, cs := 0x1000, ss := 0x1000, ds := 0x1000, sp := 0xFFFE, ip := 0x0100 },
    .reset, Bus.setByte Ram.blank 0x1000 0x0100 0x90, .empty, 0, halted, .i8086, .silent⟩

theorem instruction_atNop (halted : Bool) :
    (atNop halted).decoded.instruction = .bare .nop [] 1 := by
  let c := atNop halted
  let v := CodeView.ofBus c.memory c.regs c.model 0x1000 0x0100
  have hcode : v.code 0 = 0x90 := Bus.read_write_self _ _ (physical_lt _ _)
  have hopcode : v.HasOpcode .none 0 (.single .nop) :=
    .first hcode (by decide) (by decide) (by decide +kernel)
  show (decode v).instruction = _
  rw [hopcode.decode_eq]
  rfl

theorem raised?_atNop (halted : Bool) : (atNop halted).raised? = none := by
  rw [raised?, instruction_atNop]
  exact ite_self _

/-- A processor at a division by the word at DS:BX, which is zero. -/
def atDivision : Cpu Ram Empty :=
  { atNop false with
    regs := { (atNop false).regs with bx := 0x2000 }
    memory := Bus.setWord Ram.blank 0x1000 0x0100 0x37F7 }

theorem getByte_atDivision (o : UInt16) : Bus.getByte atDivision.memory 0x1000 o =
    if o = 0x0101 then 0x37 else if o = 0x0100 then 0xF7 else 0 := by
  have hblank : Bus.getByte Ram.blank 0x1000 o = 0 := by
    rw [Bus.getByte]
    exact Ram.read_blank (physical_lt _ _)
  rw [← hblank]
  exact Bus.getByte_setWord _ _ _ _ _

theorem instruction_atDivision : atDivision.decoded.instruction =
    .bare .div [.mem ⟨.ds, 0x1000, 0x2000, .bx, 0, false⟩ .word] 2 := by
  let v := CodeView.ofBus atDivision.memory atDivision.regs atDivision.model 0x1000 0x0100
  have hcode : v.code 0 = 0xF7 := getByte_atDivision _
  have hmode : v.code 1 = 0x37 := getByte_atDivision _
  have hform : (Row.ofOpcode 0xF7).form? 6 = some ⟨.div, [.rm .word]⟩ := by decide +kernel
  show (decode v).instruction = _
  rw [CodeView.decode_of_form hcode hmode (by decide) (by decide) hform Bool.false_ne_true]
  rfl

theorem raised?_atDivision : atDivision.raised? = some divideError := by
  have hzero : Bus.getWord atDivision.memory 0x1000 0x2000 = 0 := by
    rw [Bus.getWord, getByte_atDivision, getByte_atDivision]
    rfl
  have hrunning : atDivision.halted = false := rfl
  rw [raised?, hrunning, if_neg Bool.false_ne_true, instruction_atDivision]
  simp only [Instruction.raises?, Instruction.bare, value, readElement, memory_atInstruction, hzero]
  rfl

/-- A halted processor stays at its NOP. A division by zero goes on at its interrupt, with the place
behind the instruction on the stack. -/
theorem division_by_zero_goes_on : ((atNop true).Unserved ∧ atDivision.Unserved) ∧
    step (atNop true) = .ok () (atNop true) ∧
      ∃ d, step atDivision = .ok () d ∧ Bus.getWord d.memory 0x1000 0xFFF8 = 0x0102 ∧
        Bus.getWord d.memory 0x1000 0xFFFA = 0x1000 ∧
        Bus.getWord d.memory 0x1000 0xFFFC = atDivision.flags.word ∧
        FarPointer.mk d.regs.cs d.regs.ip = readVector d.memory divideError := by
  have hhalted : (atNop true).Unserved := Services.get?_empty
  have hdivision : atDivision.Unserved := Services.get?_empty
  refine ⟨⟨hhalted, hdivision⟩, ?_, ?_⟩
  · obtain ⟨d, hd, hstays, -⟩ := step_accounts_for_flow hhalted
    rwa [hstays rfl] at hd
  · obtain ⟨d, hd, -, hflows⟩ := step_accounts_for_flow hdivision
    obtain ⟨hflags, hcs, hip, hentry, -, -⟩ := (hflows rfl).raised _ raised?_atDivision
    rw [nextIp, instruction_atDivision] at hip
    exact ⟨d, hd, hip, hcs, hflags, hentry⟩

/-- So the halted processor has to be excepted. -/
theorem halted_nop_stays : (atNop true).Unserved ∧
    ¬ ∃ d, step (atNop true) = .ok () d ∧ d.FlowsFrom (atNop true) := by
  refine ⟨Services.get?_empty, ?_⟩
  rintro ⟨d, hd, hflows⟩
  rw [step_of_halted rfl] at hd
  cases hd
  have hop : (atNop true).decoded.instruction.op = .nop := by rw [instruction_atNop]; rfl
  obtain ⟨-, hip⟩ := hflows.sequential (raised?_atNop true) (by rw [hop]; rfl)
    (by rw [Instruction.movesToCs, hop]; rfl)
  rw [nextIp, instruction_atNop] at hip
  exact absurd hip (by decide)

end Cpu
end RealMode
