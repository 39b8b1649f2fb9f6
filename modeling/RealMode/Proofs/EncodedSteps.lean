import RealMode.Proofs.BudgetedRuns
import RealMode.Proofs.EncodingLength
import RealMode.Proofs.IntegerFlags

/-! # Steps told by bytes

Each instruction here has one lemma, about every state that faces its bytes.
-/
namespace RealMode

theorem Width.truncate_word (v : UInt16) : Width.word.truncate v = v := by
  have hv := v.toNat_lt
  apply UInt16.toNat_inj.mp
  simp only [truncate, low, modulus, UInt16.toNat_ofNat']
  omega

theorem Flags.sub_word (f : Flags) (a b : UInt16) : (f.sub .word a b).1 = a - b := by
  have hlow := f.low_sub .word a b
  have hleft := (f.sub .word a b).1.toNat_lt
  have hright := (a - b).toNat_lt
  apply UInt16.toNat_inj.mp
  simp only [Width.low, Width.modulus] at hlow
  omega

theorem Flags.dec_word (f : Flags) (a : UInt16) : (f.dec .word a).1 = a - 1 := by
  rw [← f.sub_word a 1, Flags.dec]

/-- An opcode without addressing byte that every model has. -/
structure PlainOpcode (b : UInt8) (op : Op) (fields : List Field) : Prop where
  first : Prefixes.none.add? b = none
  common : extendedOpcode b = false
  row : Row.ofOpcode b = .plain op fields

theorem Instruction.update_reg16 {M H : Type} [Bus M]
    (f : Flags → Width → UInt16 → UInt16 × Flags) (op : Op) (r : Reg16) (n : Nat) (e : Cpu M H) :
    (⟨op, [.reg16 r], none, false, none, n⟩ : Instruction).update f e =
      .ok () ((e.setFlags (f e.flags .word (e.regs.get r)).2).setReg r
        (f e.flags .word (e.regs.get r)).1) := rfl

theorem Instruction.compare_reg16 {M H : Type} [Bus M] (r : Reg16) (v : UInt16) (n : Nat)
    (e : Cpu M H) :
    (⟨.alu .cmp, [.reg16 r, .imm v .word], none, false, none, n⟩ : Instruction).alu .cmp e =
      .ok () (e.setFlags (e.flags.sub .word (e.regs.get r) (Width.word.truncate v)).2) := by
  have happly : AluOp.apply .cmp = Flags.sub := rfl
  rw [alu, happly]
  generalize Flags.sub = f
  rfl

namespace Cpu

variable {M H : Type} [Bus M]

def facing (c : Cpu M H) (i : Nat) : UInt8 :=
  Bus.getByte c.memory c.regs.cs (c.regs.ip + UInt16.ofNat i)

def facingWord (c : Cpu M H) (i : Nat) : UInt16 := wordOf (c.facing i) (c.facing (i + 1))

def behind (c : Cpu M H) (n : Nat) : Registers :=
  { c.regs with ip := c.regs.ip + UInt16.ofNat n }

/-- A state in which an instruction of `n` bytes is executed. -/
structure Fetches (c e : Cpu M H) (n : Nat) : Prop where
  regs : e.regs = c.behind n
  flags : e.flags = c.flags
  memory : e.memory = c.memory
  halted : e.halted = c.halted
  steps : e.steps = c.steps + 1

/-- A step leads to a running state with these registers and this memory. -/
structure StepsTo [HostService M H] (c d : Cpu M H) (r : Registers) (m : M) : Prop where
  step : step c = .ok () d
  regs : d.regs = r
  memory : d.memory = m
  running : d.halted = false
  steps : d.steps = c.steps + 1

/-- After `a` steps, none of which fails, the processor is in state `d`. -/
structure Arrives [HostService M H] (a : Nat) (c d : Cpu M H) : Prop where
  goesOn : ∀ n, stepUpTo (a + n) c = stepUpTo n d
  steps : d.steps = c.steps + a

section Arrival

variable [HostService M H] {c d e : Cpu M H} {a b : Nat}

theorem Arrives.trans (h : Arrives a c d) (k : Arrives b d e) : Arrives (a + b) c e := by
  refine ⟨fun n => ?_, ?_⟩
  · rw [Nat.add_assoc, h.goesOn, k.goesOn]
  · rw [k.steps, h.steps, Nat.add_assoc]

theorem Arrives.stepUpTo (h : Arrives a c d) : stepUpTo a c = .ok () d := h.goesOn 0

theorem arrives_of_step (hrunning : c.halted = false) (hstep : step c = .ok () d)
    (hsteps : d.steps = c.steps + 1) : Arrives 1 c d := by
  refine ⟨fun n => ?_, hsteps⟩
  rw [Nat.add_comm, stepUpTo_of_step hrunning hstep]

theorem StepsTo.arrives {r : Registers} {m : M} (h : c.StepsTo d r m)
    (hrunning : c.halted = false) : Arrives 1 c d :=
  arrives_of_step hrunning h.step h.steps

end Arrival

section Decoding

variable {c : Cpu M H} {b : UInt8} {op : Op} {fields : List Field}

def view (c : Cpu M H) : CodeView := .ofBus c.memory c.regs c.model c.regs.cs c.regs.ip

theorem fetches_atInstruction {i : Instruction} (hi : c.decoded.instruction = i) :
    c.Fetches c.atInstruction i.length := by
  refine ⟨?_, c.flags_atInstruction, c.memory_atInstruction, c.halted_atInstruction,
    c.steps_atInstruction⟩
  rw [regs_atInstruction, hi]
  rfl

theorem decoded_of_plain (hplain : PlainOpcode b op fields) (hb : c.facing 0 = b) :
    c.decoded.instruction =
      ⟨op, Field.operands c.view none fields 1, none, false, none, 1 + Field.totalSize fields⟩ := by
  have hopcode : c.view.HasOpcode .none 0 (.plain op fields) :=
    .first hb hplain.first hplain.common hplain.row
  have hdecoded : c.decoded = _ := (CodeView.Encodes.plain hopcode).decode_eq
  rw [hdecoded]
  simp [Decoded.instr, Prefixes.none]

variable [HostService M H]

theorem step_of_plain (hplain : PlainOpcode b op fields) (hrunning : c.halted = false)
    (hb : c.facing 0 = b) :
    ∃ e, c.Fetches e (1 + Field.totalSize fields) ∧ step c = Instruction.execute
      ⟨op, Field.operands c.view none fields 1, none, false, none, 1 + Field.totalSize fields⟩ e := by
  have hdecoded := decoded_of_plain hplain hb
  exact ⟨c.atInstruction, fetches_atInstruction hdecoded,
    (step_of_running hrunning).trans (by rw [hdecoded])⟩

theorem Fetches.stepsTo_setFlags {e : Cpu M H} {n : Nat} (he : c.Fetches e n)
    (hrunning : c.halted = false) {f : Flags} (hstep : step c = .ok () (e.setFlags f)) :
    c.StepsTo (e.setFlags f) (c.behind n) c.memory :=
  ⟨hstep, he.regs, he.memory, he.halted.trans hrunning, he.steps⟩

end Decoding

section Steps

variable [HostService M H] {c : Cpu M H} (hrunning : c.halted = false)
include hrunning

theorem step_ret (hb : c.facing 0 = 0xC3) :
    ∃ d, c.StepsTo d { c.regs with ip := c.top, sp := c.regs.sp + 2 } c.memory := by
  have hplain : PlainOpcode 0xC3 .ret [] := ⟨by decide, by decide, by decide +kernel⟩
  obtain ⟨e, he, hstep⟩ := step_of_plain hplain hrunning hb
  refine ⟨e.ret [], hstep, ?_, he.memory, he.halted.trans hrunning, he.steps⟩
  show { e.regs with ip := Bus.getWord e.memory e.regs.ss e.regs.sp, sp := e.regs.sp + 2 } = _
  rw [he.regs, he.memory]
  rfl

theorem step_push_ax (hb : c.facing 0 = 0x50) :
    ∃ d, c.StepsTo d { c.behind 1 with sp := c.regs.sp - 2 }
      (Bus.setWord c.memory c.regs.ss (c.regs.sp - 2) c.regs.ax) := by
  have hplain : PlainOpcode 0x50 .push [.fixed (.reg16 .ax)] :=
    ⟨by decide, by decide, by decide +kernel⟩
  obtain ⟨e, he, hstep⟩ := step_of_plain hplain hrunning hb
  refine ⟨e.push e.regs.ax, hstep, ?_, ?_, he.halted.trans hrunning, he.steps⟩
  · show { e.regs with sp := e.regs.sp - 2 } = _
    rw [he.regs]
    rfl
  · show Bus.setWord e.memory e.regs.ss (e.regs.sp - 2) e.regs.ax = _
    rw [he.regs, he.memory]
    rfl

theorem step_pop_bx (hb : c.facing 0 = 0x5B) :
    ∃ d, c.StepsTo d { c.behind 1 with bx := c.top, sp := c.regs.sp + 2 } c.memory := by
  have hplain : PlainOpcode 0x5B .pop [.fixed (.reg16 .bx)] :=
    ⟨by decide, by decide, by decide +kernel⟩
  obtain ⟨e, he, hstep⟩ := step_of_plain hplain hrunning hb
  refine ⟨e.drop.setReg .bx e.top, hstep, ?_, he.memory, he.halted.trans hrunning, he.steps⟩
  show { e.regs with bx := Bus.getWord e.memory e.regs.ss e.regs.sp, sp := e.regs.sp + 2 } = _
  rw [he.regs, he.memory]
  rfl

theorem step_dec_ax (hb : c.facing 0 = 0x48) :
    ∃ d, c.StepsTo d { c.behind 1 with ax := c.regs.ax - 1 } c.memory := by
  have hplain : PlainOpcode 0x48 .dec [.fixed (.reg16 .ax)] :=
    ⟨by decide, by decide, by decide +kernel⟩
  obtain ⟨e, he, hstep⟩ := step_of_plain hplain hrunning hb
  have hupdate := hstep.trans (Instruction.update_reg16 Flags.dec .dec .ax 1 e)
  rw [Flags.dec_word] at hupdate
  generalize (e.flags.dec .word (e.regs.get .ax)).2 = f at hupdate
  refine ⟨_, hupdate, ?_, he.memory, he.halted.trans hrunning, he.steps⟩
  show { e.regs with ax := e.regs.ax - 1 } = _
  rw [he.regs]
  rfl

theorem step_mov_ax (hb : c.facing 0 = 0xB8) :
    ∃ d, c.StepsTo d { c.behind 3 with ax := c.facingWord 1 } c.memory := by
  have hplain : PlainOpcode 0xB8 .mov [.fixed (.reg16 .ax), .imm .word] :=
    ⟨by decide, by decide, by decide +kernel⟩
  obtain ⟨e, he, hstep⟩ := step_of_plain hplain hrunning hb
  refine ⟨e.setReg .ax (Width.word.truncate (c.facingWord 1)), hstep, ?_, he.memory,
    he.halted.trans hrunning, he.steps⟩
  show { e.regs with ax := Width.word.truncate (c.facingWord 1) } = _
  rw [Width.truncate_word, he.regs]
  rfl

theorem step_cmp_ax (hb : c.facing 0 = 0x3D) :
    ∃ d, c.StepsTo d (c.behind 3) c.memory ∧
      d.flags = (c.flags.sub .word c.regs.ax (c.facingWord 1)).2 := by
  have hplain : PlainOpcode 0x3D (.alu .cmp) [Row.acc .word, .imm .word] :=
    ⟨by decide, by decide, by decide +kernel⟩
  obtain ⟨e, he, hstep⟩ := step_of_plain hplain hrunning hb
  have hcompare := hstep.trans (Instruction.compare_reg16 .ax (c.facingWord 1) 3 e)
  have hax : e.regs.get .ax = c.regs.ax := by
    rw [he.regs]
    rfl
  rw [Width.truncate_word, he.flags, hax] at hcompare
  exact ⟨_, he.stepsTo_setFlags hrunning hcompare, rfl⟩

theorem step_jbe (hb : c.facing 0 = 0x76) :
    ∃ d, c.StepsTo d (if c.flags.holds .be then
      { c.regs with ip := (c.behind 2).ip + signExtend (c.facing 1) } else c.behind 2)
      c.memory := by
  have hplain : PlainOpcode 0x76 (.jcc .be) [.rel8] := ⟨by decide, by decide, by decide +kernel⟩
  obtain ⟨e, he, hstep⟩ := step_of_plain hplain hrunning hb
  generalize htarget : (c.behind 2).ip + signExtend (c.facing 1) = target
  have hbranch : step c = (if e.flags.holds .be then
      (modify fun d => d.setIp target : Exec M H Unit) else pure ()) e := htarget ▸ hstep
  rw [he.flags] at hbranch
  by_cases hholds : c.flags.holds .be
  · rw [if_pos hholds] at hbranch ⊢
    refine ⟨e.setIp target, hbranch, ?_, he.memory, he.halted.trans hrunning, he.steps⟩
    show { e.regs with ip := target } = _
    rw [he.regs]
    rfl
  · rw [if_neg hholds] at hbranch ⊢
    exact ⟨e, hbranch, he.regs, he.memory, he.halted.trans hrunning, he.steps⟩

theorem step_call (hb : c.facing 0 = 0xE8) :
    ∃ d, c.StepsTo d { c.regs with
        ip := (c.behind 3).ip + c.facingWord 1, sp := c.regs.sp - 2 }
      (Bus.setWord c.memory c.regs.ss (c.regs.sp - 2) (c.behind 3).ip) := by
  have hplain : PlainOpcode 0xE8 .call [.rel16] := ⟨by decide, by decide, by decide +kernel⟩
  obtain ⟨e, he, hstep⟩ := step_of_plain hplain hrunning hb
  let target := c.view.ip + UInt16.ofNat 3 + c.view.word 1
  refine ⟨(e.push e.regs.ip).setIp target, hstep, ?_, ?_, he.halted.trans hrunning, he.steps⟩
  · show { e.regs with ip := target, sp := e.regs.sp - 2 } = _
    rw [he.regs]
    rfl
  · show Bus.setWord e.memory e.regs.ss (e.regs.sp - 2) e.regs.ip = _
    rw [he.regs, he.memory]
    rfl

theorem step_hlt (hb : c.facing 0 = 0xF4) :
    ∃ d, Arrives 1 c d ∧ d.halted = true ∧ d.regs = c.behind 1 ∧ d.memory = c.memory := by
  have hplain : PlainOpcode 0xF4 .hlt [] := ⟨by decide, by decide, by decide +kernel⟩
  obtain ⟨e, he, hstep⟩ := step_of_plain hplain hrunning hb
  exact ⟨{ e with halted := true }, arrives_of_step hrunning hstep he.steps, rfl, he.regs,
    he.memory⟩

theorem step_mul_bx (hb : c.facing 0 = 0xF7) (hm : c.facing 1 = 0xE3) :
    ∃ d, c.StepsTo d { c.behind 2 with
        ax := c.regs.ax * c.regs.bx
        dx := UInt16.ofNat (c.regs.ax.toNat * c.regs.bx.toNat / 0x10000) } c.memory := by
  have hform : (Row.ofOpcode 0xF7).form? 4 = some ⟨.mul, [.rm .word]⟩ := by decide +kernel
  have hdecoded : c.decoded = _ :=
    CodeView.decode_of_form hb hm (by decide) (by decide) hform Bool.false_ne_true
  have hi : c.decoded.instruction = ⟨.mul, [.reg16 .bx], none, false, none, 2⟩ := by
    rw [hdecoded]
    rfl
  have he := fetches_atInstruction hi
  have hstep := step_of_running hrunning
  rw [hi] at hstep
  generalize c.atInstruction = e at he hstep
  refine ⟨e.multiply .word e.regs.bx, hstep, ?_, he.memory, he.halted.trans hrunning, he.steps⟩
  show { e.regs with
    ax := UInt16.ofNat (e.regs.ax.toNat * e.regs.bx.toNat)
    dx := UInt16.ofNat (e.regs.ax.toNat * e.regs.bx.toNat / 0x10000) } = _
  have hproduct : UInt16.ofNat (e.regs.ax.toNat * e.regs.bx.toNat) = e.regs.ax * e.regs.bx := by
    simp
  rw [hproduct, he.regs]
  rfl

end Steps
end Cpu
end RealMode
