import RealMode.CommandLine.Invocation
import RealMode.Pc.SaveState

/-! # Sessions

What the program does for an invocation, once the file that it names has been read, as a value.
-/
namespace RealMode

open CommandLine Pc

inductive SessionError where
  | unknownLevel (name : String)
  | unknownModel (name : String)
  | unreadable (file : String)
  | unwritable (file : String)
  | machine (e : MachineError)
  /-- The final state could not be written, for a reason that the host gives. -/
  | unsaved (reason : String)
  /-- The host has no room for a listing. -/
  | noRoom
  deriving DecidableEq, Repr

def SessionError.message : SessionError → String
  | unknownLevel name => "Unknown log level: " ++ name
  | unknownModel name => "Unsupported CPU model: " ++ name
  | unreadable file => "reading " ++ file
  | unwritable file => "opening log file " ++ file
  | machine e => e.message
  | unsaved reason => reason
  | noRoom => "capacity overflow"

/-- A program without room is aborted. -/
def SessionError.status : SessionError → UInt8
  | noRoom => 134
  | _ => 1

structure Report where
  output : ByteArray
  dump : Option (String × String)
  journal : Journal
  result : Except SessionError (Option UInt8)

namespace Report

def failed (j : Journal) (e : SessionError) : Report := ⟨ByteArray.empty, none, j, .error e⟩

/-- What is left of a report whose file the host did not write. -/
def unsaved (r : Report) (reason : String) : Report :=
  { r with dump := none, result := .error (.unsaved reason) }

def status (r : Report) : UInt8 :=
  match r.result with
  | .ok code => code.getD 0
  | .error e => e.status

end Report

namespace Session

def level (name : String) : Except SessionError Level :=
  match Level.ofName? name with
  | some l => .ok l
  | none => .error (.unknownLevel name)

def model (name : String) : Except SessionError Model :=
  match Model.ofName? name with
  | some m => .ok m
  | none => .error (.unknownModel name)

/-- The journal that a request asks for. Interrupts and services have one level together. -/
def journal (q : JournalRequest) : Except SessionError Journal := do
  let mut j := Journal.silent
  if let some name := q.level then
    j := { j with globalLevel := ← level name }
  if let some name := q.cpu then
    j := j.setLevel .cpu (← level name)
  if let some name := q.interrupts then
    let l ← level name
    j := (j.setLevel .interrupts l).setLevel .bios l
  if let some rate := q.rate then
    j := { j with rate := rate }
  return j

def program (image : ByteArray) (q : RunRequest) : Action Service Unit := do
  Machine.load image q.tail
  if let some input := q.input then
    modify (·.typeText input)
  let _ ← Machine.runUntilHalt none

def finalText (m : Machine Service) (q : RunRequest) : String :=
  if q.screen then m.cpu.memory.screenText ++ "\n"
  else if q.echo then ""
  else m.cpu.memory.consoleText

def machine (j : Journal) (q : RunRequest) : Except SessionError (Machine Service) := do
  let config : Config :=
    { Config.standard with
      model := ← model q.cpu
      memoryKb := UInt16.ofNat q.memoryKb
      echo := q.echo
      stepLimit := q.stepLimit }
  return .new config j

def run (j : Journal) (image : ByteArray) (q : RunRequest) : Report :=
  match machine j q with
  | .error e => .failed j e
  | .ok m =>
    match program image q m with
    | .error e m => ⟨m.cpu.memory.echoed, none, m.cpu.journal, .error (.machine e)⟩
    | .ok _ m =>
      { output := m.cpu.memory.echoed ++ (finalText m q).toUTF8
        dump := q.dump.map fun file => (file, m.saveState.pretty)
        journal := m.cpu.journal
        result := .ok m.exitCode }

def listingLine (segment : UInt16) (offset : Nat) (x : ListedInstruction) : String :=
  let bytes := " ".intercalate (x.bytes.toList.map fun b => Text.upperHex 2 b.toNat)
  Text.upperHex 4 segment.toNat ++ ":" ++ Text.upperHex 4 offset ++ "  " ++
    Text.padRight 14 bytes ++ x.instruction.text ++ "\n"

/-- The lines of the instructions that start inside an image of `size` bytes. -/
def listingLines (segment start : UInt16) (size : Nat) (listed : List ListedInstruction) :
    Array String :=
  (listed.foldl
    (fun (passed, lines) x =>
      if size ≤ passed then (passed, lines)
      else (passed + x.bytes.size, lines.push (listingLine segment (start.toNat + passed) x)))
    (0, #[])).2

def listing (capacity : Nat) (image : ByteArray) (q : ListRequest) :
    Action Service (Option (List ListedInstruction)) := do
  Machine.load image ""
  Machine.disassemble capacity q.count

/-- What a 64-bit host has room for at most: no allocation is larger than 2^63 - 1 bytes, and an
entry takes 64 of them. -/
def listingCapacity : Nat := 0x7FFFFFFFFFFFFFFF / 64

def list (capacity : Nat) (j : Journal) (image : ByteArray) (q : ListRequest) : Report :=
  match model q.cpu with
  | .error e => .failed j e
  | .ok model =>
    match listing capacity image q (.new { Config.standard with model := model } j) with
    | .error e m => .failed m.cpu.journal (.machine e)
    | .ok none m => .failed m.cpu.journal .noRoom
    | .ok (some listed) m =>
      let r := m.cpu.regs
      { output := (String.join (listingLines r.cs r.ip image.size listed).toList).toUTF8
        dump := none
        journal := m.cpu.journal
        result := .ok none }

/-- Carries out a command with the journal that has been asked for. The image is what stands in
the file that the command names, or nothing if that cannot be read. -/
def perform (capacity : Nat) (command : Command) (j : Journal) (image : Option ByteArray) :
    Report :=
  match image with
  | none => .failed j (.unreadable command.file)
  | some image =>
    match command with
    | .run q => run j image q
    | .list q => list capacity j image q

end Session
end RealMode
