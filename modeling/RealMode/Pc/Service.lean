import RealMode.Interrupt
import RealMode.Pc.Dos

/-! # The services of the machine -/
namespace RealMode.Pc

inductive Service where
  | video
  | equipment
  | memorySize
  | keyboard
  | time
  | terminate
  | dos
  deriving DecidableEq, Repr

/-- A type of host services that has those of the machine among its own. -/
class ServiceHost (H : Type) extends HostService Board H where
  builtIn : Service → H

def dosSegment : UInt16 := 0x0060

namespace Service

variable {H : Type}

def serve : Service → Cpu Board H → Cpu Board H
  | video => Video.serve
  | equipment => Bios.equipment
  | memorySize => Bios.memorySize
  | keyboard => Bios.keyboard
  | time => Bios.time
  | terminate => Dos.terminateWithZero
  | dos => Dos.serve

instance : ServiceHost Service where
  serve s := modify s.serve
  builtIn := id

structure EntryPoint where
  vector : UInt8
  pointer : FarPointer
  service : Service

/-- The entry points in the ROM of the IBM PC/XT. -/
def biosEntries : List EntryPoint :=
  [⟨0x10, ⟨biosSegment, 0xF065⟩, video⟩, ⟨0x11, ⟨biosSegment, 0xF84D⟩, equipment⟩,
    ⟨0x12, ⟨biosSegment, 0xF841⟩, memorySize⟩, ⟨0x16, ⟨biosSegment, 0xE82E⟩, keyboard⟩,
    ⟨0x1A, ⟨biosSegment, 0xFE6E⟩, time⟩]

def dosEntries : List EntryPoint :=
  [⟨0x20, ⟨dosSegment, 0x0000⟩, terminate⟩, ⟨0x21, ⟨dosSegment, 0x0004⟩, dos⟩]

def registerAll [ServiceHost H] (c : Cpu Board H) (entries : List EntryPoint) : Cpu Board H :=
  entries.foldl (fun c e => c.register e.vector e.pointer (ServiceHost.builtIn e.service)) c

def installBios [ServiceHost H] (c : Cpu Board H) : Cpu Board H :=
  let size := c.memory.memoryKb
  let c := { c with memory := c.memory.initDataArea }
  (registerAll c biosEntries).note .bios .info fun _ =>
    "BIOS services installed (" ++ toString size.toNat ++ " KB conventional memory)"

def installDos [ServiceHost H] (c : Cpu Board H) : Cpu Board H :=
  (registerAll c dosEntries).note .bios .info fun _ => "DOS services installed"

end Service
end RealMode.Pc
