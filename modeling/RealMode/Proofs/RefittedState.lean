import RealMode.Proofs.BusMorphism
import RealMode.Proofs.ServedErrors

/-! # Refitted processors

A processor can be put on another bus, along a morphism, and be made another model.
-/
namespace RealMode

/-- Another bus for a processor, and other models in the place of its own. -/
structure Refit (M N : Type) [Bus M] [Bus N] where
  bus : Bus.Morphism M N
  model : Model → Model

namespace Cpu

variable {M N H : Type} [Bus M] [Bus N]

def refit (φ : Refit M N) (c : Cpu M H) : Cpu N H :=
  ⟨c.regs, c.flags, φ.bus.map c.memory, c.services, c.steps, c.halted, φ.model c.model, c.journal⟩

section Refit

variable (φ : Refit M N) (c : Cpu M H)

@[simp] theorem regs_refit : (c.refit φ).regs = c.regs := by
  cases c
  rfl

@[simp] theorem flags_refit : (c.refit φ).flags = c.flags := by
  cases c
  rfl

@[simp] theorem memory_refit : (c.refit φ).memory = φ.bus.map c.memory := by
  cases c
  rfl

@[simp] theorem services_refit : (c.refit φ).services = c.services := by
  cases c
  rfl

@[simp] theorem halted_refit : (c.refit φ).halted = c.halted := by
  cases c
  rfl

@[simp] theorem model_refit : (c.refit φ).model = φ.model c.model := by
  cases c
  rfl

@[simp] theorem note_refit (a : Category) (l : Level) (t : Unit → String) :
    (c.refit φ).note a l t = (c.note a l t).refit φ := by
  cases c
  rfl

@[simp] theorem noteAll_refit (ns : List Note) :
    (c.refit φ).noteAll ns = (c.noteAll ns).refit φ := by
  cases c
  rfl

@[simp] theorem setRegs_refit (r : Registers) :
    (c.refit φ).setRegs r = (c.setRegs r).refit φ := by
  cases c
  rfl

@[simp] theorem setFlags_refit (f : Flags) :
    (c.refit φ).setFlags f = (c.setFlags f).refit φ := by
  cases c
  rfl

@[simp] theorem setReg_refit (r : Reg16) (v : UInt16) :
    (c.refit φ).setReg r v = (c.setReg r v).refit φ := by
  cases c
  rfl

@[simp] theorem setReg8_refit (r : Reg8) (v : UInt8) :
    (c.refit φ).setReg8 r v = (c.setReg8 r v).refit φ := by
  cases c
  rfl

@[simp] theorem setSeg_refit (s : SegReg) (v : UInt16) :
    (c.refit φ).setSeg s v = (c.setSeg s v).refit φ := by
  cases c
  rfl

@[simp] theorem setIp_refit (v : UInt16) :
    (c.refit φ).setIp v = (c.setIp v).refit φ := by
  cases c
  rfl

@[simp] theorem setFlag_refit (f : Flag) (v : Bool) :
    (c.refit φ).setFlag f v = (c.setFlag f v).refit φ := by
  cases c
  rfl

@[simp] theorem fetched_refit (i : Instruction) :
    (c.refit φ).fetched i = (c.fetched i).refit φ := by
  cases c
  rfl

@[simp] theorem jump_refit (p : FarPointer) :
    (c.refit φ).jump p = (c.jump p).refit φ := by
  cases c
  rfl

@[simp] theorem setCarryOverflow_refit (v : Bool) :
    (c.refit φ).setCarryOverflow v = (c.setCarryOverflow v).refit φ := by
  cases c
  rfl

@[simp] theorem drop_refit : (c.refit φ).drop = c.drop.refit φ := by
  cases c
  rfl

theorem multiply_refit (w : Width) (v : UInt16) :
    (c.refit φ).multiply w v = (c.multiply w v).refit φ := by
  cases w <;> simp only [multiply, regs_refit, setReg_refit, flags_refit,
    setFlags_refit, setCarryOverflow_refit]

theorem multiplySigned_refit (w : Width) (v : UInt16) :
    (c.refit φ).multiplySigned w v = (c.multiplySigned w v).refit φ := by
  cases w <;> simp only [multiplySigned, regs_refit, setReg_refit, flags_refit,
    setFlags_refit, setCarryOverflow_refit]

@[simp] theorem wide_refit : (c.refit φ).wide = c.wide := by
  cases c
  rfl

theorem divide?_refit (w : Width) (v : UInt16) :
    (c.refit φ).divide? w v = (c.divide? w v).map (·.refit φ) := by
  cases w <;> simp only [divide?, regs_refit, wide_refit, apply_ite (Option.map _),
    setReg8_refit, setReg_refit, Option.map_some, Option.map_none]

theorem divideSigned?_refit (w : Width) (v : UInt16) :
    (c.refit φ).divideSigned? w v = (c.divideSigned? w v).map (·.refit φ) := by
  cases w <;> simp only [divideSigned?, regs_refit, wide_refit, apply_ite (Option.map _),
    setReg8_refit, setReg_refit, Option.map_some, Option.map_none]

@[simp] theorem lowAdjust_refit : (c.refit φ).lowAdjust = c.lowAdjust := by
  cases c
  rfl

theorem decimalAdjust_refit (step : Int → Int) :
    (c.refit φ).decimalAdjust step = (c.decimalAdjust step).refit φ := by
  simp only [decimalAdjust, lowAdjust_refit, regs_refit, flags_refit,
    setReg8_refit, setFlags_refit]

theorem asciiAdjust_refit (ax ah : Int) :
    (c.refit φ).asciiAdjust ax ah = (c.asciiAdjust ax ah).refit φ := by
  simp only [asciiAdjust, lowAdjust_refit, regs_refit, flags_refit,
    setRegs_refit, setFlags_refit]

theorem splitDigits_refit (base : UInt8) :
    (c.refit φ).splitDigits base = (c.splitDigits base).refit φ := by
  simp only [splitDigits, regs_refit, setReg8_refit, flags_refit, setFlags_refit]

theorem joinDigits_refit (base : UInt8) :
    (c.refit φ).joinDigits base = (c.joinDigits base).refit φ := by
  simp only [joinDigits, regs_refit, setReg_refit, flags_refit, setFlags_refit]

theorem countDown_refit (goesOn : Bool) : (c.refit φ).countDown goesOn =
    ((c.countDown goesOn).1, (c.countDown goesOn).2.refit φ) := by
  simp only [countDown, regs_refit, setReg_refit]

@[simp] theorem direction_refit : (c.refit φ).direction = c.direction := by
  cases c
  rfl

@[simp] theorem advance_refit (r : Reg16) (w : Width) (count : Nat) :
    (c.refit φ).advance r w count = (c.advance r w count).refit φ := by
  cases c
  rfl

@[simp] theorem accumulator_refit (w : Width) : (c.refit φ).accumulator w = c.accumulator w := by
  cases w <;> simp only [accumulator, regs_refit]

@[simp] theorem setAccumulator_refit (w : Width) (v : UInt16) :
    (c.refit φ).setAccumulator w v = (c.setAccumulator w v).refit φ := by
  cases w <;> simp only [setAccumulator, setReg8_refit, setReg_refit]

end Refit

section Repetition

variable {φ : Refit M N}

theorem foldl_refit {f : Cpu M H → Reg16 → Cpu M H} {g : Cpu N H → Reg16 → Cpu N H}
    (hf : ∀ c r, g (c.refit φ) r = (f c r).refit φ) (rs : List Reg16) (c : Cpu M H) :
    rs.foldl g (c.refit φ) = (rs.foldl f c).refit φ := by
  induction rs generalizing c with
  | nil => rfl
  | cons r rs ih => rw [List.foldl_cons, List.foldl_cons, hf, ih]

theorem repeat_refit {f : Cpu M H → Cpu M H} {g : Cpu N H → Cpu N H}
    (hf : ∀ c, g (c.refit φ) = (f c).refit φ) (n : Nat) (c : Cpu M H) :
    Nat.repeat g n (c.refit φ) = (Nat.repeat f n c).refit φ := by
  induction n with
  | zero => rfl
  | succ n ih => rw [Nat.repeat, Nat.repeat, ih, hf]

theorem compareMass_refit {f : Cpu M H → Cpu M H} {g : Cpu N H → Cpu N H}
    (hf : ∀ c, g (c.refit φ) = (f c).refit φ) (how : Repeat) (count done : Nat) (c : Cpu M H) :
    compareMass g how count done (c.refit φ) =
      ((compareMass f how count done c).1, (compareMass f how count done c).2.refit φ) := by
  induction count generalizing done c with
  | zero => rfl
  | succ n ih =>
    have hstops : ((f c).refit φ).stops how = (f c).stops how := by
      cases how <;> simp only [stops, flags_refit]
    simp only [compareMass, hf, hstops]
    split
    next => rfl
    next => exact ih (done + 1) (f c)

end Repetition

section Memory

variable (φ : Refit M N) (c : Cpu M H)

@[simp] theorem top_refit : (c.refit φ).top = c.top := by
  simp only [top, memory_refit, regs_refit, φ.bus.getWord_map]

@[simp] theorem push_refit (v : UInt16) :
    (c.refit φ).push v = (c.push v).refit φ := by
  simp only [push, memory_refit, regs_refit, φ.bus.setWord_map]
  rfl

@[simp] theorem readElement_refit (segment offset : UInt16) (w : Width) :
    (c.refit φ).readElement segment offset w = c.readElement segment offset w := by
  cases w <;> simp only [readElement, memory_refit, φ.bus.getByte_map, φ.bus.getWord_map]

@[simp] theorem writeElement_refit (segment offset : UInt16) (w : Width) (v : UInt16) :
    (c.refit φ).writeElement segment offset w v =
      (c.writeElement segment offset w v).refit φ := by
  cases w <;> simp only [writeElement, memory_refit, φ.bus.setByte_map, φ.bus.setWord_map] <;> rfl

@[simp] theorem value_refit (o : Operand) : (c.refit φ).value o = c.value o := by
  cases o <;> simp only [value, regs_refit, readElement_refit]

@[simp] theorem far?_refit (o : Operand) : (c.refit φ).far? o = c.far? o := by
  cases o <;> simp only [far?, memory_refit, φ.bus.getWord_map]

theorem portIn_refit (port : UInt16) (w : Width) :
    (c.refit φ).portIn port w =
      ((c.portIn port w).1, (c.portIn port w).2.refit φ) := by
  cases w <;> simp only [portIn, memory_refit, φ.bus.portIn_map, φ.bus.portInWord_map] <;> rfl

@[simp] theorem portOut_refit (port : UInt16) (w : Width) (v : UInt16) :
    (c.refit φ).portOut port w v = (c.portOut port w v).refit φ := by
  cases w <;> simp only [portOut, memory_refit, φ.bus.portOut_map, φ.bus.portOutWord_map] <;> rfl

@[simp] theorem popReg_refit (r : Reg16) :
    (c.refit φ).popReg r = (c.popReg r).refit φ := by
  simp only [popReg, pop, top_refit, drop_refit, setReg_refit]

theorem pushAll_refit : (c.refit φ).pushAll = c.pushAll.refit φ := by
  have hpush (c : Cpu M H) (r : Reg16) :
      (c.refit φ).push ((c.refit φ).regs.get r) = (c.push (c.regs.get r)).refit φ := by
    rw [regs_refit, push_refit]
  have hfold := foldl_refit (f := fun c r => c.push (c.regs.get r))
    (g := fun c r => c.push (c.regs.get r)) hpush
  simp only [pushAll, hfold, regs_refit, push_refit]

theorem popAll_refit : (c.refit φ).popAll = c.popAll.refit φ := by
  have hpop (c : Cpu M H) (r : Reg16) := c.popReg_refit φ r
  simp only [popAll, foldl_refit hpop, drop_refit]

theorem copyFramePointer_refit :
    (c.refit φ).copyFramePointer = c.copyFramePointer.refit φ := by
  simp only [copyFramePointer, regs_refit, setReg_refit, memory_refit, φ.bus.getWord_map,
    push_refit]

theorem enter_refit (size level : UInt16) :
    (c.refit φ).enter size level = (c.enter size level).refit φ := by
  have hcopy (c : Cpu M H) := c.copyFramePointer_refit φ
  simp only [enter, regs_refit, push_refit, repeat_refit hcopy,
    ← apply_ite (refit φ), setReg_refit]

theorem leave_refit : (c.refit φ).leave = c.leave.refit φ := by
  simp only [leave, regs_refit, setReg_refit, popReg_refit]

@[simp] theorem release_refit (operands : List Operand) :
    (c.refit φ).release operands = (c.release operands).refit φ := by
  cases operands with
  | nil => rfl
  | cons o _ => simp only [release, regs_refit, value_refit, setReg_refit]

theorem ret_refit (operands : List Operand) :
    (c.refit φ).ret operands = (c.ret operands).refit φ := by
  simp only [ret, pop, top_refit, drop_refit, setIp_refit, release_refit]

theorem retFar_refit (operands : List Operand) :
    (c.refit φ).retFar operands = (c.retFar operands).refit φ := by
  simp only [retFar, pop, top_refit, drop_refit, setIp_refit, setSeg_refit,
    release_refit]

theorem iret_refit : (c.refit φ).iret = c.iret.refit φ := by
  simp only [iret, pop, top_refit, drop_refit, setIp_refit, setSeg_refit,
    flags_refit, setFlags_refit]

theorem lookUp_refit (s : SegReg) :
    (c.refit φ).lookUp s = (c.lookUp s).refit φ := by
  simp only [lookUp, regs_refit, memory_refit, φ.bus.getByte_map, setReg8_refit]

@[simp] theorem pushFrame_refit :
    (c.refit φ).pushFrame = c.pushFrame.refit φ := by
  simp only [pushFrame, push, setFlags, regs_refit, flags_refit, memory_refit, φ.bus.setWord_map]
  rfl

theorem atVector_refit (vector : UInt8) :
    (c.refit φ).atVector vector = (c.atVector vector).refit φ := by
  simp only [atVector, regs_refit, note_refit, pushFrame_refit, memory_refit,
    φ.bus.readVector_map, jump_refit]

section Strings

variable (segment : UInt16) (w : Width)

theorem single_refit (op : StringOp) :
    op.single segment w (c.refit φ) = (op.single segment w c).refit φ := by
  cases op with
  | movs => simp only [StringOp.single, movs, regs_refit, readElement_refit,
      writeElement_refit, advance_refit]
  | cmps => simp only [StringOp.single, cmps, regs_refit, readElement_refit,
      flags_refit, setFlags_refit, advance_refit]
  | stos => simp only [StringOp.single, stos, regs_refit, accumulator_refit,
      writeElement_refit, advance_refit]
  | lods => simp only [StringOp.single, lods, regs_refit, readElement_refit,
      setAccumulator_refit, advance_refit]
  | scas => simp only [StringOp.single, scas, regs_refit, readElement_refit,
      accumulator_refit, flags_refit, setFlags_refit, advance_refit]
  | ins => simp only [StringOp.single, ins, regs_refit, portIn_refit,
      writeElement_refit, advance_refit]
  | outs => simp only [StringOp.single, outs, regs_refit, readElement_refit,
      portOut_refit, advance_refit]

theorem movsMass_refit (count : Nat) :
    (c.refit φ).movsMass segment w count = (c.movsMass segment w count).refit φ := by
  simp only [movsMass, regs_refit, direction_refit, memory_refit, φ.bus.copy_map]
  split
  next => rfl
  next => exact repeat_refit (fun c => c.single_refit φ segment w .movs) count c

theorem stosMass_refit (count : Nat) :
    (c.refit φ).stosMass w count = (c.stosMass w count).refit φ := by
  cases w with
  | byte =>
    simp only [stosMass, regs_refit, direction_refit, memory_refit, φ.bus.fill_map]
    rfl
  | word => exact repeat_refit (fun c => c.single_refit φ 0 .word .stos) count c

theorem lodsMass_refit (count : Nat) :
    (c.refit φ).lodsMass segment w count = (c.lodsMass segment w count).refit φ := by
  have hsingle (c : Cpu M H) := c.single_refit φ segment w .lods
  simp only [StringOp.single] at hsingle
  simp only [lodsMass, advance_refit, hsingle, apply_ite (refit φ)]

theorem mass_refit (op : StringOp) (count : Nat) (how : Repeat) :
    op.mass segment w count how (c.refit φ) =
      ((op.mass segment w count how c).1, (op.mass segment w count how c).2.refit φ) := by
  have hsingle (op : StringOp) (c : Cpu M H) := c.single_refit φ segment w op
  cases op with
  | movs => simp only [StringOp.mass, movsMass_refit]
  | stos => simp only [StringOp.mass, stosMass_refit]
  | lods => simp only [StringOp.mass, lodsMass_refit]
  | cmps => exact compareMass_refit (hsingle .cmps) how count 0 c
  | scas => exact compareMass_refit (hsingle .scas) how count 0 c
  | ins => simp only [StringOp.mass, repeat_refit (hsingle .ins)]
  | outs => simp only [StringOp.mass, repeat_refit (hsingle .outs)]

theorem repeated_refit (op : StringOp) (mnemonic : String) (how : Repeat) :
    op.repeated mnemonic segment w how (c.refit φ) =
      (op.repeated mnemonic segment w how c).refit φ := by
  simp only [StringOp.repeated, regs_refit, note_refit, mass_refit, setReg_refit,
    apply_ite (refit φ)]

end Strings
end Memory
end Cpu
end RealMode
