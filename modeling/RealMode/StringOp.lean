import RealMode.Cpu

/-! # String instructions

A repetition is done in bulk where that gives the state that single elements would give.
-/
namespace RealMode

namespace Cpu

variable {M H : Type}

def direction (c : Cpu M H) : Direction :=
  if c.flags.get .direction then .backward else .forward

def advance (c : Cpu M H) (r : Reg16) (w : Width) (count : Nat) : Cpu M H :=
  { c with regs := c.regs.adjust r (c.direction.step w.bytes * count) }

def accumulator (c : Cpu M H) (w : Width) : UInt16 :=
  match w with
  | .byte => wordOfByte (c.regs.get8 .al)
  | .word => c.regs.ax

def setAccumulator (c : Cpu M H) (w : Width) (v : UInt16) : Cpu M H :=
  match w with
  | .byte => c.setReg8 .al (lowByte v)
  | .word => c.setReg .ax v

variable [Bus M]

def movs (c : Cpu M H) (segment : UInt16) (w : Width) : Cpu M H :=
  let v := c.readElement segment c.regs.si w
  ((c.writeElement c.regs.es c.regs.di w v).advance .si w 1).advance .di w 1

def cmps (c : Cpu M H) (segment : UInt16) (w : Width) : Cpu M H :=
  let a := c.readElement segment c.regs.si w
  let b := c.readElement c.regs.es c.regs.di w
  ((c.setFlags (c.flags.sub w a b).2).advance .si w 1).advance .di w 1

def stos (c : Cpu M H) (w : Width) : Cpu M H :=
  (c.writeElement c.regs.es c.regs.di w (c.accumulator w)).advance .di w 1

def lods (c : Cpu M H) (segment : UInt16) (w : Width) : Cpu M H :=
  (c.setAccumulator w (c.readElement segment c.regs.si w)).advance .si w 1

def scas (c : Cpu M H) (w : Width) : Cpu M H :=
  let b := c.readElement c.regs.es c.regs.di w
  (c.setFlags (c.flags.sub w (c.accumulator w) b).2).advance .di w 1

def ins (c : Cpu M H) (w : Width) : Cpu M H :=
  let (v, c) := c.portIn c.regs.dx w
  (c.writeElement c.regs.es c.regs.di w v).advance .di w 1

def outs (c : Cpu M H) (segment : UInt16) (w : Width) : Cpu M H :=
  let v := c.readElement segment c.regs.si w
  (c.portOut c.regs.dx w v).advance .si w 1

/-- Whether ranges of `bytes` bytes from the two addresses have no byte in common, as long as
neither passes the top of memory. -/
def apart (src dst bytes : Nat) : Bool := src + bytes ≤ dst || dst + bytes ≤ src

/-- `count` moves at once. The order of the bytes in a word matters only where the ranges
overlap, and there words are moved singly. -/
def movsMass (c : Cpu M H) (segment : UInt16) (w : Width) (count : Nat) : Cpu M H :=
  let r := c.regs
  let bytes := count * w.bytes
  let bulk :=
    w = .byte ||
      (apart (physical segment r.si) (physical r.es r.di) bytes && c.direction = .forward)
  if bulk then
    let c := { c with memory := Bus.copy c.memory segment r.si r.es r.di bytes c.direction }
    (c.advance .si w count).advance .di w count
  else
    Nat.repeat (fun c => c.movs segment w) count c

def stosMass (c : Cpu M H) (w : Width) (count : Nat) : Cpu M H :=
  match w with
  | .byte =>
    let r := c.regs
    let start :=
      match c.direction with
      | .forward => r.di
      | .backward => r.di - UInt16.ofNat (count - 1)
    let c := { c with memory := Bus.fill c.memory r.es start count (r.get8 .al) }
    c.advance .di w count
  | .word => Nat.repeat (fun c => c.stos w) count c

/-- Of `count` loads only the last one shows. -/
def lodsMass (c : Cpu M H) (segment : UInt16) (w : Width) (count : Nat) : Cpu M H :=
  if count = 0 then c else (c.advance .si w (count - 1)).lods segment w

def stops (c : Cpu M H) (how : Repeat) : Bool :=
  match how with
  | .rep => !c.flags.get .zero
  | .repne => c.flags.get .zero

/-- Compares at most `count` elements by `compare`, `done` others having been compared, and says
how many have been then. -/
def compareMass (compare : Cpu M H → Cpu M H) (how : Repeat) :
    (count done : Nat) → Cpu M H → Nat × Cpu M H
  | 0, done, c => (done, c)
  | count + 1, done, c =>
    let c := compare c
    if c.stops how then (done + 1, c) else compareMass compare how count (done + 1) c

def cmpsMass (c : Cpu M H) (segment : UInt16) (w : Width) (count : Nat) (how : Repeat) :
    Nat × Cpu M H :=
  compareMass (fun c => c.cmps segment w) how count 0 c

def scasMass (c : Cpu M H) (w : Width) (count : Nat) (how : Repeat) : Nat × Cpu M H :=
  compareMass (fun c => c.scas w) how count 0 c

end Cpu

namespace StringOp

variable {M H : Type} [Bus M]

def single (op : StringOp) (segment : UInt16) (w : Width) (c : Cpu M H) : Cpu M H :=
  match op with
  | movs => c.movs segment w
  | cmps => c.cmps segment w
  | stos => c.stos w
  | lods => c.lods segment w
  | scas => c.scas w
  | ins => c.ins w
  | outs => c.outs segment w

def mass (op : StringOp) (segment : UInt16) (w : Width) (count : Nat) (how : Repeat)
    (c : Cpu M H) : Nat × Cpu M H :=
  match op with
  | movs => (count, c.movsMass segment w count)
  | stos => (count, c.stosMass w count)
  | lods => (count, c.lodsMass segment w count)
  | cmps => c.cmpsMass segment w count how
  | scas => c.scasMass w count how
  | ins | outs => (count, Nat.repeat (op.single segment w) count c)

/-- A repetition takes its count from CX and leaves there what remains. -/
def repeated (op : StringOp) (mnemonic : String) (segment : UInt16) (w : Width) (how : Repeat)
    (c : Cpu M H) : Cpu M H :=
  let count := c.regs.cx.toNat
  if count = 0 then c
  else
    let c := c.note .cpu .trace fun _ => mnemonic ++ " x" ++ toString count
    let (n, c) := op.mass segment w count how c
    c.setReg .cx (UInt16.ofNat (count - n))

end StringOp

def Instruction.executeString {M H : Type} [Bus M] (i : Instruction) : Exec M H Unit :=
  match i.op with
  | .string op w => modify fun c =>
    let segment := c.regs.getSeg (i.override.getD .ds)
    match i.repeated with
    | none => op.single segment w c
    | some how => op.repeated i.op.mnemonic segment w how c
  | _ => throw (.unsupportedOperand i.op.mnemonic "string operation")

end RealMode
