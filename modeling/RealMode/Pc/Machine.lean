import RealMode.Pc.Config
import RealMode.Pc.ProgramPrefix
import RealMode.Pc.Service
import RealMode.Run

/-! # The machine

A program starts at offset 0100 with a zero word on the stack, so that a near return ends it.
-/
namespace RealMode.Pc

structure Program where
  image : ByteArray
  tail : String

structure Machine (H : Type) where
  cpu : Cpu Board H
  config : Config
  program : Option Program

inductive MachineError where
  | noExecutable
  | imageTooLong (size : Nat)
  | unknownMountPoint (id : String)
  | unreadableState
  | cpu (e : CpuError)
  deriving DecidableEq, Repr

def MachineError.message : MachineError → String
  | noExecutable => "No executable loaded"
  | imageTooLong size =>
    "Invalid executable: " ++ toString size ++ " bytes does not fit in a .COM segment"
  | unknownMountPoint id => "Invalid mount point: " ++ id
  | unreadableState => "Invalid save state"
  | cpu e => e.message

structure MountPoint where
  id : String
  name : String
  extensions : List String
  required : Bool
  deriving DecidableEq, Repr

def entryOffset : UInt16 := 0x0100

def imageLimit : Nat := 0x10000 - prefixSize

def stackTop : UInt16 := 0xFFFE

def programMount : MountPoint := ⟨"Program", "DOS Program (.COM)", ["com"], true⟩

def mountPoints : List MountPoint := [programMount]

abbrev Action (H α : Type) := EStateM MachineError (Machine H) α

variable {H : Type}

def boot [ServiceHost H] (c : Cpu Board H) : Cpu Board H :=
  let c := { c with
    regs := { c.regs with cs := 0xFFFF, ip := 0, ss := 0, sp := stackTop } }
  Service.installDos (Service.installBios c)

def entryRegisters (segment : UInt16) : Registers :=
  { Registers.zero with
    cx := 0x00FF
    dx := segment
    si := entryOffset
    di := stackTop
    sp := stackTop
    cs := segment
    ds := segment
    es := segment
    ss := segment
    ip := entryOffset }

/-- The flags that a program starts with: interrupts are on. -/
def entryFlags : UInt16 := 0x0202

def placeProgram (b : Board) (segment : UInt16) (p : Program) : Board :=
  let memoryTop := UInt16.ofNat (min 0xFFFF (b.memoryKb.toNat * 64))
  let b := buildPrefix b segment memoryTop p.tail
  let b := Bus.setBytes b segment entryOffset p.image
  Bus.setWord b segment stackTop 0

def loadText (segment : UInt16) (size : Nat) : String :=
  "loaded " ++ toString size ++ " byte .COM image at " ++ Text.upperHex 4 segment.toNat ++ ":" ++
    Text.upperHex 4 entryOffset.toNat ++ " (physical 0x" ++
    Text.upperHex 5 (physical segment entryOffset) ++ ")"

def startProgram (c : Cpu Board H) (segment : UInt16) (p : Program) : Cpu Board H :=
  let c := { c with
    memory := placeProgram c.memory segment p
    regs := entryRegisters segment
    flags := c.flags.setWord entryFlags
    halted := false }
  c.note .bios .info fun _ => loadText segment p.image.size

def imageFault? (image : ByteArray) : Option MachineError :=
  if image.size = 0 then some .noExecutable
  else if imageLimit < image.size then some (.imageTooLong image.size)
  else none

namespace Machine

def new [ServiceHost H] (config : Config) (journal : Journal) : Machine H :=
  let config := config.clamped
  ⟨boot (Cpu.new (Board.new config.memoryKb config.echo) config.model journal), config, none⟩

def onCpu (m : Machine H) (f : Cpu Board H → Cpu Board H) : Machine H :=
  let ⟨cpu, config, program⟩ := m
  ⟨f cpu, config, program⟩

def onBoard (m : Machine H) (f : Board → Board) : Machine H :=
  m.onCpu fun c => { c with memory := f c.memory }

def liftCpu {α : Type} (x : Exec Board H α) : Action H α := fun m =>
  let ⟨cpu, config, program⟩ := m
  match x cpu with
  | .ok a cpu => .ok a ⟨cpu, config, program⟩
  | .error e cpu => .error (.cpu e) ⟨cpu, config, program⟩

def setModel (m : Machine H) (model : Model) : Machine H :=
  { m.onCpu fun c => { c with model := model } with config := { m.config with model := model } }

def load (image : ByteArray) (tail : String) : Action H Unit := do
  if let some e := imageFault? image then throw e
  modify fun m =>
    let ⟨cpu, config, _⟩ := m
    ⟨startProgram cpu config.loadSegment ⟨image, tail⟩, config, some ⟨image, tail⟩⟩

/-- Power off and on. The mounted program stays mounted but is not loaded. -/
def restart [ServiceHost H] (m : Machine H) : Machine H :=
  m.onCpu fun c =>
    let c : Cpu Board H := { c with memory := c.memory.reset }
    boot { c.reset with steps := 0 }

/-- Power off and on, then the mounted program is loaded again. -/
def reset [ServiceHost H] (m : Machine H) : Machine H :=
  let m := m.restart
  match m.program with
  | none => m
  | some p =>
    match load p.image p.tail { m with program := none } with
    | .ok _ m => m
    | .error e m => m.onCpu fun c =>
      c.note .bios .error fun _ => "reload after reset failed: " ++ e.message

def step [ServiceHost H] : Action H Unit := liftCpu Cpu.step

/-- Runs the mounted program on. Without a limit of its own the one in the settings holds. -/
def runUntilHalt [ServiceHost H] (limit : Option Nat) : Action H RunSummary := do
  if (← get).program.isNone then throw .noExecutable
  let stepLimit := (← get).config.stepLimit
  let s ← liftCpu (Cpu.run (limit <|> stepLimit))
  modify (·.onCpu fun c => c.note .bios .debug fun _ =>
    "run stopped: " ++ s.reason.name ++ " after " ++ toString s.steps ++ " steps")
  return s

def execute [ServiceHost H] (x : ExecutionContext) : Action H RunSummary :=
  liftCpu (Cpu.execute x)

def disassemble (capacity count : Nat) : Action H (Option (List ListedInstruction)) :=
  liftCpu (Cpu.disassemble capacity count)

def typeText (m : Machine H) (text : String) : Machine H :=
  m.onBoard fun b => { b with keyboard := b.keyboard.paste text }

def pressKey (m : Machine H) (scancode : UInt8) : Bool × Machine H :=
  let (accepted, keyboard) := m.cpu.memory.keyboard.press scancode
  (accepted, m.onBoard fun b => { b with keyboard := keyboard })

def exitCode (m : Machine H) : Option UInt8 := m.cpu.memory.exitCode

def mount (id : String) (image : ByteArray) : Action H Unit :=
  if id = programMount.id then load image "" else throw (.unknownMountPoint id)

def unmount [ServiceHost H] (id : String) : Action H Unit :=
  if id = programMount.id then modify fun m => ({ m with program := none } : Machine H).restart
  else throw (.unknownMountPoint id)

def isMounted (m : Machine H) (id : String) : Bool := id = programMount.id && m.program.isSome

def statusText (m : Machine H) : String :=
  let r := m.cpu.regs
  let general := [("AX", r.ax), ("BX", r.bx), ("CX", r.cx), ("DX", r.dx), ("SP", r.sp),
    ("BP", r.bp), ("SI", r.si), ("DI", r.di)]
  " ".intercalate (general.map fun (name, v) => name ++ "=" ++ Text.upperHex 4 v.toNat) ++
    " CS:IP=" ++ Text.upperHex 4 r.cs.toNat ++ ":" ++ Text.upperHex 4 r.ip.toNat ++
    " FLAGS=" ++ Text.upperHex 4 m.cpu.flags.word.toNat ++ " steps=" ++ toString m.cpu.counter

end Machine
end RealMode.Pc
