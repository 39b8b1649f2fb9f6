import RealMode.Decode
import RealMode.Services
import RealMode.VectorTable

/-! # The processor

The machine around the processor is `M`, and `H` is the type of its host services.
-/
namespace RealMode

structure Cpu (M H : Type) where
  regs : Registers
  flags : Flags
  memory : M
  services : Services H
  /-- Instructions executed so far. The 64 bits that are kept of it are `Cpu.counter`. -/
  steps : Nat
  halted : Bool
  model : Model
  journal : Journal

/-- Why an instruction could not be executed. None of these is a fault of the guest: such
faults become interrupts. -/
inductive CpuError where
  | unsupportedOperand (mnemonic operand : String)
  | missingOperand (mnemonic : String) (index : Nat)
  | readOnlyOperand (operand : String)
  | service (vector : UInt8) (message : String)
  deriving DecidableEq, Repr

def CpuError.message : CpuError → String
  | unsupportedOperand mnemonic operand =>
    mnemonic ++ ": operand " ++ operand ++ " is not supported"
  | missingOperand mnemonic index => mnemonic ++ ": missing operand " ++ toString index
  | readOnlyOperand operand => "cannot write to " ++ operand
  | service vector message =>
    "INT 0x" ++ Text.upperHex 2 vector.toNat ++ " handler failed: " ++ message

/-- An action of the processor. One that fails leaves the state it has reached. -/
abbrev Exec (M H α : Type) := EStateM CpuError (Cpu M H) α

namespace Cpu

variable {M H : Type}

def note (c : Cpu M H) (category : Category) (level : Level) (text : Unit → String) : Cpu M H :=
  { c with journal := c.journal.add ⟨category, level, text⟩ }

def noteAll (c : Cpu M H) (ns : List Note) : Cpu M H :=
  { c with journal := c.journal.addAll ns }

def setRegs (c : Cpu M H) (r : Registers) : Cpu M H := { c with regs := r }

def setFlags (c : Cpu M H) (f : Flags) : Cpu M H := { c with flags := f }

/-- The step counter, 64 bits wide: without overflow checks it goes from its last value to 0. -/
def counter (c : Cpu M H) : Nat := c.steps % UInt64.size

def setReg (c : Cpu M H) (r : Reg16) (v : UInt16) : Cpu M H :=
  { c with regs := c.regs.set r v }

def setReg8 (c : Cpu M H) (r : Reg8) (v : UInt8) : Cpu M H :=
  { c with regs := c.regs.set8 r v }

def setSeg (c : Cpu M H) (s : SegReg) (v : UInt16) : Cpu M H :=
  { c with regs := c.regs.setSeg s v }

def setIp (c : Cpu M H) (v : UInt16) : Cpu M H := { c with regs := { c.regs with ip := v } }

def setFlag (c : Cpu M H) (flag : Flag) (v : Bool) : Cpu M H :=
  { c with flags := c.flags.set flag v }

variable [Bus M]

/-- Power-on state. Host services and the step count stay. -/
def reset (c : Cpu M H) : Cpu M H :=
  { c with
    regs := { Registers.zero with cs := 0xFFFF }
    flags := .reset
    halted := false
    memory := installVectors c.memory }

def new (memory : M) (model : Model) (journal : Journal) : Cpu M H :=
  reset ⟨.zero, .reset, memory, .empty, 0, false, model, journal⟩

def push (c : Cpu M H) (v : UInt16) : Cpu M H :=
  let sp := c.regs.sp - 2
  { c with
    regs := { c.regs with sp := sp }
    memory := Bus.setWord c.memory c.regs.ss sp v }

def top (c : Cpu M H) : UInt16 := Bus.getWord c.memory c.regs.ss c.regs.sp

def drop (c : Cpu M H) : Cpu M H := { c with regs := { c.regs with sp := c.regs.sp + 2 } }

def pop (c : Cpu M H) : UInt16 × Cpu M H := (c.top, c.drop)

def readElement (c : Cpu M H) (segment offset : UInt16) : Width → UInt16
  | .byte => wordOfByte (Bus.getByte c.memory segment offset)
  | .word => Bus.getWord c.memory segment offset

def writeElement (c : Cpu M H) (segment offset : UInt16) (w : Width) (v : UInt16) : Cpu M H :=
  match w with
  | .byte => { c with memory := Bus.setByte c.memory segment offset (lowByte v) }
  | .word => { c with memory := Bus.setWord c.memory segment offset v }

/-- The current value of an operand. A far pointer counts as its offset. -/
def value (c : Cpu M H) : Operand → UInt16
  | .reg8 r => wordOfByte (c.regs.get8 r)
  | .reg16 r => c.regs.get r
  | .seg s => c.regs.getSeg s
  | .mem m w => c.readElement m.segment m.offset w
  | .imm v w => w.truncate v
  | .near target => target
  | .far _ offset => offset

def store (o : Operand) (v : UInt16) : Exec M H Unit :=
  match o with
  | .reg8 r => modify (·.setReg8 r (lowByte v))
  | .reg16 r => modify (·.setReg r v)
  | .seg s => modify (·.setSeg s v)
  | .mem m w => modify (·.writeElement m.segment m.offset w v)
  | .imm _ _ | .near _ | .far _ _ => throw (.readOnlyOperand o.text)

def far? (c : Cpu M H) : Operand → Option FarPointer
  | .mem m _ =>
    some ⟨Bus.getWord c.memory m.segment (m.offset + 2), Bus.getWord c.memory m.segment m.offset⟩
  | .far segment offset => some ⟨segment, offset⟩
  | _ => none

def portIn (c : Cpu M H) (port : UInt16) (w : Width) : UInt16 × Cpu M H :=
  match w with
  | .byte =>
    let y := Bus.portIn c.memory port
    (wordOfByte y.value, { c with memory := y.bus, journal := c.journal.addAll y.notes })
  | .word =>
    let y := Bus.portInWord c.memory port
    (y.value, { c with memory := y.bus, journal := c.journal.addAll y.notes })

def portOut (c : Cpu M H) (port : UInt16) (w : Width) (v : UInt16) : Cpu M H :=
  match w with
  | .byte =>
    let y := Bus.portOut c.memory port (lowByte v)
    { c with memory := y.bus, journal := c.journal.addAll y.notes }
  | .word =>
    let y := Bus.portOutWord c.memory port v
    { c with memory := y.bus, journal := c.journal.addAll y.notes }

def decoded (c : Cpu M H) : Decoded := decodeAt c.memory c.regs c.model c.regs.cs c.regs.ip

end Cpu
end RealMode
