import RealMode.Interrupt
import RealMode.StringOp

/-! # Execution

IP already points behind the instruction, so that branch targets and return addresses count
from there.
-/
namespace RealMode

namespace Instruction

variable {M H : Type}

def arg (i : Instruction) (n : Nat) : Exec M H Operand :=
  match i.operands[n]? with
  | some o => pure o
  | none => throw (.missingOperand i.op.mnemonic n)

def unsupported (i : Instruction) (o : Operand) : CpuError :=
  .unsupportedOperand i.op.mnemonic o.text

end Instruction

namespace Cpu

variable {M H : Type}

def setCarryOverflow (c : Cpu M H) (v : Bool) : Cpu M H :=
  c.setFlags ((c.flags.set .carry v).set .overflow v)

/-- The double-width product in AX or DX:AX. CF and OF tell whether its upper half matters. -/
def multiply (c : Cpu M H) (w : Width) (v : UInt16) : Cpu M H :=
  match w with
  | .byte =>
    let product := (c.regs.get8 .al).toNat * v.toNat
    let c := c.setReg .ax (UInt16.ofNat product)
    let c := c.setFlags (c.flags.ofResult .word product)
    c.setCarryOverflow (0x100 ≤ product)
  | .word =>
    let product := c.regs.ax.toNat * v.toNat
    let c := c.setReg .ax (UInt16.ofNat product)
    let c := c.setReg .dx (UInt16.ofNat (product / 0x10000))
    let c := c.setFlags (c.flags.ofResult .word product)
    c.setCarryOverflow (0x10000 ≤ product)

def multiplySigned (c : Cpu M H) (w : Width) (v : UInt16) : Cpu M H :=
  match w with
  | .byte =>
    let product := Width.byte.signed (wordOfByte (c.regs.get8 .al)) * Width.byte.signed v
    let low := UInt16.ofInt product
    let c := c.setReg .ax low
    let c := c.setFlags (c.flags.ofResult .word low.toNat)
    c.setCarryOverflow (product != Width.byte.signed low)
  | .word =>
    let product := Width.word.signed c.regs.ax * Width.word.signed v
    let low := UInt16.ofInt product
    let c := c.setReg .ax low
    let c := c.setReg .dx (UInt16.ofInt (product / 0x10000))
    let c := c.setFlags (c.flags.ofResult .word low.toNat)
    c.setCarryOverflow (product != Width.word.signed low)

def wide (c : Cpu M H) : Nat := c.regs.dx.toNat * 0x10000 + c.regs.ax.toNat

def divide? (c : Cpu M H) (w : Width) (v : UInt16) : Option (Cpu M H) :=
  let d := v.toNat
  if d = 0 then none
  else
    match w with
    | .byte =>
      let n := c.regs.ax.toNat
      if 0xFF < n / d then none
      else some ((c.setReg8 .al (UInt8.ofNat (n / d))).setReg8 .ah (UInt8.ofNat (n % d)))
    | .word =>
      let n := c.wide
      if 0xFFFF < n / d then none
      else some ((c.setReg .ax (UInt16.ofNat (n / d))).setReg .dx (UInt16.ofNat (n % d)))

/-- The state after a signed division, which truncates toward zero. -/
def divideSigned? (c : Cpu M H) (w : Width) (v : UInt16) : Option (Cpu M H) :=
  let d := w.signed v
  if d = 0 then none
  else
    match w with
    | .byte =>
      let n := Width.word.signed c.regs.ax
      let q := n.tdiv d
      if q < -0x80 ∨ 0x7F < q then none
      else some ((c.setReg8 .al (UInt8.ofInt q)).setReg8 .ah (UInt8.ofInt (n.tmod d)))
    | .word =>
      let n := Int.bmod c.wide 0x100000000
      let q := n.tdiv d
      if q < -0x8000 ∨ 0x7FFF < q then none
      else some ((c.setReg .ax (UInt16.ofInt q)).setReg .dx (UInt16.ofInt (n.tmod d)))

def lowAdjust (c : Cpu M H) : Bool := 9 < (c.regs.get8 .al).toNat % 16 || c.flags.get .auxiliary

/-- DAA with `step` the identity, DAS with `step` the negation. -/
def decimalAdjust (c : Cpu M H) (step : Int → Int) : Cpu M H :=
  let al := (c.regs.get8 .al).toNat
  let low := c.lowAdjust
  let high := 0x99 < al || c.flags.get .carry
  let r := UInt8.ofInt (al + step ((if low then 0x06 else 0) + (if high then 0x60 else 0)))
  let f := (c.flags.set .auxiliary low).set .carry high
  (c.setReg8 .al r).setFlags (f.ofResult .byte r.toNat)

/-- AAA and AAS: moves AX by `ax` and AH by `ah` if the low digit needs it. -/
def asciiAdjust (c : Cpu M H) (ax ah : Int) : Cpu M H :=
  let adjust := c.lowAdjust
  let moved :=
    if adjust then
      let r := c.regs.adjust .ax ax
      r.set8 .ah (UInt8.ofInt ((r.get8 .ah).toNat + ah))
    else c.regs
  let r := moved.set8 .al (UInt8.ofNat ((moved.get8 .al).toNat % 16))
  (c.setRegs r).setFlags ((c.flags.set .auxiliary adjust).set .carry adjust)

def splitDigits (c : Cpu M H) (base : UInt8) : Cpu M H :=
  let al := (c.regs.get8 .al).toNat
  let low := al % base.toNat
  let c := c.setReg8 .ah (UInt8.ofNat (al / base.toNat))
  let c := c.setReg8 .al (UInt8.ofNat low)
  c.setFlags (c.flags.ofResult .byte low)

def joinDigits (c : Cpu M H) (base : UInt8) : Cpu M H :=
  let r := ((c.regs.get8 .al).toNat + (c.regs.get8 .ah).toNat * base.toNat) % 256
  (c.setReg .ax (UInt16.ofNat r)).setFlags (c.flags.ofResult .byte r)

variable [Bus M]

def pushAll (c : Cpu M H) : Cpu M H :=
  let sp := c.regs.sp
  let c := [Reg16.ax, .cx, .dx, .bx].foldl (fun c r => c.push (c.regs.get r)) c
  let c := c.push sp
  [Reg16.bp, .si, .di].foldl (fun c r => c.push (c.regs.get r)) c

def popReg (c : Cpu M H) (r : Reg16) : Cpu M H :=
  let (v, c) := c.pop
  c.setReg r v

/-- The inverse of `pushAll`; the stored SP is dropped. -/
def popAll (c : Cpu M H) : Cpu M H :=
  let c := [Reg16.di, .si, .bp].foldl popReg c
  let c := c.drop
  [Reg16.bx, .dx, .cx, .ax].foldl popReg c

def copyFramePointer (c : Cpu M H) : Cpu M H :=
  let c := c.setReg .bp (c.regs.bp - 2)
  c.push (Bus.getWord c.memory c.regs.ss c.regs.bp)

def enter (c : Cpu M H) (size level : UInt16) : Cpu M H :=
  let level := level.toNat % 32
  let c := c.push c.regs.bp
  let frame := c.regs.sp
  let c := if level = 0 then c else (Nat.repeat copyFramePointer (level - 1) c).push frame
  let c := c.setReg .bp frame
  c.setReg .sp (c.regs.sp - size)

def leave (c : Cpu M H) : Cpu M H := (c.setReg .sp c.regs.bp).popReg .bp

def release (c : Cpu M H) (operands : List Operand) : Cpu M H :=
  match operands with
  | [] => c
  | o :: _ => c.setReg .sp (c.regs.sp + c.value o)

def ret (c : Cpu M H) (operands : List Operand) : Cpu M H :=
  let (ip, c) := c.pop
  (c.setIp ip).release operands

def retFar (c : Cpu M H) (operands : List Operand) : Cpu M H :=
  let (ip, c) := c.pop
  let (cs, c) := (c.setIp ip).pop
  (c.setSeg .cs cs).release operands

def lookUp (c : Cpu M H) (segment : SegReg) : Cpu M H :=
  let offset := c.regs.bx + wordOfByte (c.regs.get8 .al)
  c.setReg8 .al (Bus.getByte c.memory (c.regs.getSeg segment) offset)

def countDown (c : Cpu M H) (goesOn : Bool) : Bool × Cpu M H :=
  let cx := c.regs.cx - 1
  (cx != 0 && goesOn, c.setReg .cx cx)

end Cpu

namespace Instruction

variable {M H : Type} [Bus M]

def branch (i : Instruction) : Exec M H Unit := do
  let target ← i.arg 0
  modify fun c => c.setIp (c.value target)

def farTarget (i : Instruction) : Exec M H FarPointer := do
  let o ← i.arg 0
  match (← get).far? o with
  | some p => pure p
  | none => throw (i.unsupported o)

def alu (i : Instruction) (op : AluOp) : Exec M H Unit := do
  let dst ← i.arg 0
  let src ← i.arg 1
  let r ← modifyGet fun c =>
    let (r, f) := op.apply c.flags dst.width (c.value dst) (c.value src)
    (r, c.setFlags f)
  if op ≠ .cmp then Cpu.store dst r

/-- Replaces an operand by a function of it and the flags. -/
def update (i : Instruction) (f : Flags → Width → UInt16 → UInt16 × Flags) : Exec M H Unit := do
  let dst ← i.arg 0
  let r ← modifyGet fun c =>
    let (r, g) := f c.flags dst.width (c.value dst)
    (r, c.setFlags g)
  Cpu.store dst r

def shift (i : Instruction) (op : ShiftOp) : Exec M H Unit := do
  let dst ← i.arg 0
  let count ← i.arg 1
  let c ← get
  let n := (lowByte (c.value count)).toNat
  let n := if c.model.extended then n % 32 else n
  if n ≠ 0 then
    let (r, f) := op.apply c.flags dst.width (c.value dst) n
    set (c.setFlags f)
    Cpu.store dst r

def loadFar (i : Instruction) (s : SegReg) : Exec M H Unit := do
  let dst ← i.arg 0
  let src ← i.arg 1
  match src.isMemory, (← get).far? src with
  | true, some p =>
    Cpu.store dst p.offset
    modify (·.setSeg s p.segment)
  | _, _ => throw (i.unsupported src)

def loop (i : Instruction) (goesOn : Flags → Bool) : Exec M H Unit := do
  let taken ← modifyGet fun c => c.countDown (goesOn c.flags)
  if taken then i.branch

variable [HostService M H]

def orDivideError (f : Cpu M H → Option (Cpu M H)) : Exec M H Unit := do
  match f (← get) with
  | some c => set c
  | none => Cpu.interrupt divideError

def execute (i : Instruction) : Exec M H Unit := do
  match i.op with
  | .alu op => i.alu op
  | .test =>
    let dst ← i.arg 0
    let src ← i.arg 1
    modify fun c => c.setFlags (c.flags.conj dst.width (c.value dst) (c.value src)).2
  | .inc => i.update Flags.inc
  | .dec => i.update Flags.dec
  | .neg => i.update fun f w v => f.sub w 0 v
  | .not => i.update fun f _ v => (~~~v, f)
  | .mul =>
    let src ← i.arg 0
    modify fun c => c.multiply src.width (c.value src)
  | .imul =>
    let src ← i.arg 0
    modify fun c => c.multiplySigned src.width (c.value src)
  | .div =>
    let src ← i.arg 0
    orDivideError fun c => c.divide? src.width (c.value src)
  | .idiv =>
    let src ← i.arg 0
    orDivideError fun c => c.divideSigned? src.width (c.value src)
  | .imul3 =>
    let dst ← i.arg 0
    let src ← i.arg 1
    let factor ← i.arg 2
    let r ← modifyGet fun c =>
      let product := Width.word.signed (c.value src) * Width.word.signed (c.value factor)
      let r := UInt16.ofInt product
      (r, c.setCarryOverflow (product != Width.word.signed r))
    Cpu.store dst r
  | .shift op => i.shift op
  | .xchg =>
    let a ← i.arg 0
    let b ← i.arg 1
    let c ← get
    let va := c.value a
    let vb := c.value b
    Cpu.store a vb
    Cpu.store b va
  | .mov =>
    let dst ← i.arg 0
    let src ← i.arg 1
    Cpu.store dst ((← get).value src)
  | .lea =>
    let dst ← i.arg 0
    match ← i.arg 1 with
    | .mem m _ => Cpu.store dst m.offset
    | o => throw (i.unsupported o)
  | .lds => i.loadFar .ds
  | .les => i.loadFar .es
  | .push =>
    let src ← i.arg 0
    modify fun c => c.push (if src = .reg16 .sp then c.regs.sp - 2 else c.value src)
  | .pop =>
    let dst ← i.arg 0
    Cpu.store dst (← modifyGet Cpu.pop)
  | .pusha => modify Cpu.pushAll
  | .popa => modify Cpu.popAll
  | .pushf => modify fun c => c.push c.flags.word
  | .popf =>
    let w ← modifyGet Cpu.pop
    modify fun c => c.setFlags (c.flags.setWord w)
  | .lahf => modify fun c => c.setReg8 .ah c.flags.lowByte
  | .sahf => modify fun c => c.setFlags (c.flags.setLowByte (c.regs.get8 .ah))
  | .cbw => modify fun c => c.setReg .ax (signExtend (c.regs.get8 .al))
  | .cwd => modify fun c => c.setReg .dx (if Width.word.negative c.regs.ax.toNat then 0xFFFF else 0)
  | .xlat => modify (·.lookUp (i.override.getD .ds))
  | .salc => modify fun c => c.setReg8 .al (if c.flags.get .carry then 0xFF else 0)
  | .daa => modify (·.decimalAdjust id)
  | .das => modify (·.decimalAdjust Neg.neg)
  | .aaa => modify (·.asciiAdjust 0x106 0)
  | .aas => modify (·.asciiAdjust (-6) (-1))
  | .aam =>
    let o ← i.arg 0
    orDivideError fun c =>
      let base := lowByte (c.value o)
      if base = 0 then none else some (c.splitDigits base)
  | .aad =>
    let o ← i.arg 0
    modify fun c => c.joinDigits (lowByte (c.value o))
  | .jcc cond => if (← get).flags.holds cond then i.branch
  | .jmp => i.branch
  | .jmpFar =>
    let p ← i.farTarget
    modify (·.jump p)
  | .call =>
    let target ← i.arg 0
    modify fun c =>
      let ip := c.value target
      (c.push c.regs.ip).setIp ip
  | .callFar =>
    let p ← i.farTarget
    modify fun c => ((c.push c.regs.cs).push c.regs.ip).jump p
  | .ret => modify (·.ret i.operands)
  | .retFar => modify (·.retFar i.operands)
  | .loop => i.loop fun _ => true
  | .loope => i.loop fun f => f.get .zero
  | .loopne => i.loop fun f => !f.get .zero
  | .jcxz => if (← get).regs.cx = 0 then i.branch
  | .int =>
    let o ← i.arg 0
    Cpu.interrupt (lowByte ((← get).value o))
  | .int3 => Cpu.interrupt breakpoint
  | .into => if (← get).flags.get .overflow then Cpu.interrupt overflowTrap
  | .iret => modify Cpu.iret
  | .enter =>
    let size ← i.arg 0
    let c ← get
    let n := c.value size
    let level ← i.arg 1
    set (c.enter n (c.value level))
  | .leave => modify Cpu.leave
  | .bound =>
    let o ← i.arg 0
    let bounds ← i.arg 1
    let c ← get
    match bounds with
    | .mem m _ =>
      let index := Width.word.signed (c.value o)
      let lower := Width.word.signed (Bus.getWord c.memory m.segment m.offset)
      let upper := Width.word.signed (Bus.getWord c.memory m.segment (m.offset + 2))
      if index < lower ∨ upper < index then Cpu.interrupt boundFault
    | _ => throw (i.unsupported bounds)
  | .input =>
    let dst ← i.arg 0
    let port ← i.arg 1
    let v ← modifyGet fun c => c.portIn (c.value port) dst.width
    Cpu.store dst v
  | .output =>
    let port ← i.arg 0
    let src ← i.arg 1
    modify fun c => c.portOut (c.value port) src.width (c.value src)
  | .string _ _ => i.executeString
  | .clc => modify (·.setFlag .carry false)
  | .stc => modify (·.setFlag .carry true)
  | .cmc => modify fun c => c.setFlag .carry (!c.flags.get .carry)
  | .cld => modify (·.setFlag .direction false)
  | .std => modify (·.setFlag .direction true)
  | .cli => modify (·.setFlag .interrupt false)
  | .sti => modify (·.setFlag .interrupt true)
  | .hlt => modify fun c => { c with halted := true }
  | .wait | .nop | .esc _ => pure ()
  | .db | .dw => Cpu.interrupt invalidOpcode

end Instruction
end RealMode
