import RealMode.Cpu

/-! # Interrupts

A host service returns as an IRET would, except that the status flags it leaves reach the caller.
It is out of its place while it runs, and goes back unless another has taken it.
-/
namespace RealMode

def divideError : UInt8 := 0

def breakpoint : UInt8 := 3

def overflowTrap : UInt8 := 4

def boundFault : UInt8 := 5

def invalidOpcode : UInt8 := 6

class HostService (M H : Type) where
  serve : H → Exec M H Unit

namespace Cpu

variable {M H : Type} [Bus M]

structure Entry where
  sp : UInt16
  cs : UInt16
  ip : UInt16
  flags : Flags
  halted : Bool
  deriving DecidableEq, Repr

def entry (c : Cpu M H) : Entry := ⟨c.regs.sp, c.regs.cs, c.regs.ip, c.flags, c.halted⟩

def reenter (c : Cpu M H) (e : Entry) : Cpu M H :=
  { c with
    regs := { c.regs with sp := e.sp, cs := e.cs, ip := e.ip }
    flags := e.flags
    halted := e.halted }

def pushFrame (c : Cpu M H) : Cpu M H :=
  let c := { c with halted := false }
  let c := c.push c.flags.word
  let c := c.setFlags ((c.flags.set .trap false).set .interrupt false)
  let c := c.push c.regs.cs
  c.push c.regs.ip

def jump (c : Cpu M H) (p : FarPointer) : Cpu M H :=
  { c with regs := { c.regs with cs := p.segment, ip := p.offset } }

def iret (c : Cpu M H) : Cpu M H :=
  let (ip, c) := c.pop
  let c := c.setIp ip
  let (cs, c) := c.pop
  let c := c.setSeg .cs cs
  let (flags, c) := c.pop
  c.setFlags (c.flags.setWord flags)

/-- An IRET that keeps the status flags. -/
def hostReturn (c : Cpu M H) : Cpu M H :=
  let status := c.flags.bits
  let c := c.iret
  c.setFlags (c.flags.mergeStatus status)

def interruptText (r : Registers) (vector : UInt8) : String :=
  "INT 0x" ++ Text.upperHex 2 vector.toNat ++ " from " ++ Text.upperHex 4 r.cs.toNat ++ ":" ++
    Text.upperHex 4 r.ip.toNat ++ " AX=" ++ Text.upperHex 4 r.ax.toNat

/-- The error of a service, named after the vector unless it already names one. -/
def serviceError (vector : UInt8) (e : CpuError) : CpuError :=
  match e with
  | .service _ _ => e
  | _ => .service vector e.message

/-- What follows a service: the return on success, the entry state on failure. -/
@[noinline] def finishService (e : Entry) (vector : UInt8) (h : H)
    (r : EStateM.Result CpuError (Cpu M H) Unit) : EStateM.Result CpuError (Cpu M H) Unit :=
  match r with
  | .ok _ c => .ok () (hostReturn { c with services := c.services.insertIfNew vector h })
  | .error err c =>
    let c := { c with services := c.services.insertIfNew vector h }
    let c := (c.reenter e).note .interrupts .warn fun _ =>
      "INT 0x" ++ Text.upperHex 2 vector.toNat ++ " host handler failed: " ++ err.message
    .error (serviceError vector err) c

def interrupt [HostService M H] (vector : UInt8) : Exec M H Unit := fun c =>
  let regs := c.regs
  let e := c.entry
  let c := c.note .interrupts .debug fun _ => interruptText regs vector
  let c := c.pushFrame
  match c.services.get? vector with
  | none => .ok () (c.jump (readVector c.memory vector))
  | some h =>
    finishService e vector h
      (HostService.serve h { c with services := c.services.erase vector })

/-- Installs a service, points its vector at `p` and plants an IRET there. -/
def register (c : Cpu M H) (vector : UInt8) (p : FarPointer) (h : H) : Cpu M H :=
  let c := { c with
    memory := Bus.setByte (writeVector c.memory vector p) p.segment p.offset iretOpcode
    services := c.services.insert vector h }
  c.note .interrupts .debug fun _ =>
    "registered host handler for INT 0x" ++ Text.upperHex 2 vector.toNat ++ " at " ++
      Text.upperHex 4 p.segment.toNat ++ ":" ++ Text.upperHex 4 p.offset.toNat

end Cpu
end RealMode
