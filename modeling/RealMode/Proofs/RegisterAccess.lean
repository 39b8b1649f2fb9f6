import RealMode.Cpu

/-! # Access to registers and flags

The proofs take the state apart, which keeps what is written out of sight of the kernel.
-/
namespace RealMode.Cpu

variable {M H : Type} (c : Cpu M H)

@[simp] theorem memory_setReg (r : Reg16) (v : UInt16) : (c.setReg r v).memory = c.memory := by
  cases c
  rfl

@[simp] theorem memory_setReg8 (r : Reg8) (v : UInt8) : (c.setReg8 r v).memory = c.memory := by
  cases c
  rfl

@[simp] theorem memory_setSeg (s : SegReg) (v : UInt16) : (c.setSeg s v).memory = c.memory := by
  cases c
  rfl

@[simp] theorem memory_setIp (v : UInt16) : (c.setIp v).memory = c.memory := by
  cases c
  rfl

@[simp] theorem memory_setFlags (f : Flags) : (c.setFlags f).memory = c.memory := by
  cases c
  rfl

@[simp] theorem memory_setFlag (f : Flag) (v : Bool) : (c.setFlag f v).memory = c.memory := by
  cases c
  rfl

@[simp] theorem regs_note (a : Category) (l : Level) (t : Unit → String) :
    (c.note a l t).regs = c.regs := by
  cases c
  rfl

@[simp] theorem halted_note (a : Category) (l : Level) (t : Unit → String) :
    (c.note a l t).halted = c.halted := by
  cases c
  rfl

@[simp] theorem memory_note (a : Category) (l : Level) (t : Unit → String) :
    (c.note a l t).memory = c.memory := by
  cases c
  rfl

@[simp] theorem services_note (a : Category) (l : Level) (t : Unit → String) :
    (c.note a l t).services = c.services := by
  cases c
  rfl

@[simp] theorem model_note (a : Category) (l : Level) (t : Unit → String) :
    (c.note a l t).model = c.model := by
  cases c
  rfl

@[simp] theorem flags_note (a : Category) (l : Level) (t : Unit → String) :
    (c.note a l t).flags = c.flags := by
  cases c
  rfl

@[simp] theorem memory_drop : c.drop.memory = c.memory := by
  cases c
  rfl

end RealMode.Cpu
