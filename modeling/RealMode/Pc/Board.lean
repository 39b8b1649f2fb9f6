import Std.Data.HashMap
import RealMode.Bus.Segmented
import RealMode.Pc.Clock
import RealMode.Pc.Keyboard
import RealMode.Pc.Screen
import RealMode.Pc.Transcript
import RealMode.Text.Hex
import RealMode.Text.Utf8

/-! # The board -/
namespace RealMode.Pc

structure Board where
  ram : Ram
  keyboard : Keyboard
  screen : Screen
  /-- Whether an access to the text page has missed it. -/
  failed : Bool
  clock : Clock
  /-- The segment of the running program's prefix, 0 if there is none. -/
  programSegment : UInt16
  ports : Std.HashMap UInt16 UInt8
  transcript : Transcript
  echo : Bool
  echoed : ByteArray
  /-- Changes with every read of the display status, so that programs waiting for it go on. -/
  retrace : Bool
  memoryKb : UInt16
  exitCode : Option UInt8

def textPageBase : Nat := 0xB8000

def keyboardDataPort : UInt16 := 0x60

def keyboardStatusPort : UInt16 := 0x64

def displayStatusPort : UInt16 := 0x3DA

/-- Ports that give back the last byte written: interrupt controller, timer, speaker and
display controller. -/
def latchedPorts : List UInt16 := [0x20, 0x21, 0x40, 0x41, 0x42, 0x43, 0x61, 0x3D4, 0x3D5]

namespace Board

theorem size_page (r : Ram) : (r.readBlock textPageBase pageSize).size = pageSize := by
  have h := r.size_eq
  simp only [Ram.readBlock, textPageBase, pageSize, cellCount, columns, rows, memorySize] at h ⊢
  simp [ByteArray.size_extract, h]

def page (b : Board) : TextPage := ⟨b.ram.readBlock textPageBase pageSize, size_page b.ram⟩

def display (b : Board) : Display := ⟨b.screen, b.page, b.failed⟩

def onDisplay (b : Board) (f : Display → Display) : Board :=
  let d := f b.display
  { b with
    screen := d.screen
    failed := d.failed
    ram := b.ram.writeBlock textPageBase d.page.bytes }

/-- Memory and devices as after power-on; only the settings stay, and what the host has seen. -/
def reset (b : Board) : Board :=
  onDisplay
    { b with
      ram := .blank
      keyboard := .empty
      screen := .start
      failed := false
      clock := .zero
      programSegment := 0
      ports := ∅
      transcript := .empty
      retrace := false
      exitCode := none }
    Display.clear

def new (memoryKb : UInt16) (echo : Bool) : Board :=
  reset
    { ram := .blank
      keyboard := .empty
      screen := .start
      failed := false
      clock := .zero
      programSegment := 0
      ports := ∅
      transcript := .empty
      echo := echo
      echoed := ByteArray.empty
      retrace := false
      memoryKb := memoryKb
      exitCode := none }

def teletype (b : Board) (character : UInt8) : Board :=
  let b := b.onDisplay (·.teletype character)
  { b with
    transcript := b.transcript.push character
    echoed := if b.echo then b.echoed.push character else b.echoed }

def screenText (b : Board) : String := b.page.text

def consoleText (b : Board) : String := Text.Utf8.decode b.transcript.bytes

def read (b : Board) (a : Nat) : UInt8 := b.ram.read (a % memorySize)

def write (b : Board) (a : Nat) (v : UInt8) : Board :=
  { b with ram := b.ram.write (a % memorySize) v }

def readBlock (b : Board) (a n : Nat) : ByteArray := b.ram.readBlock (a % memorySize) n

def writeBlock (b : Board) (a : Nat) (data : ByteArray) : Board :=
  { b with ram := b.ram.writeBlock (a % memorySize) data }

def portText (port : UInt16) : String := "port 0x" ++ Text.upperHex 4 port.toNat

def byteText (v : UInt8) : String := "0x" ++ Text.upperHex 2 v.toNat

def portValue? (b : Board) (port : UInt16) : Option UInt8 :=
  if port = keyboardDataPort then some b.keyboard.scancode
  else if port = keyboardStatusPort then some (if b.keyboard.hasKey then 1 else 0)
  else if port = displayStatusPort then some (if b.retrace then 0x00 else 0x09)
  else if latchedPorts.contains port then some (b.ports.getD port 0)
  else none

def afterPortIn (b : Board) (port : UInt16) : Board :=
  if port = displayStatusPort then { b with retrace := !b.retrace } else b

def portIn (b : Board) (port : UInt16) : Cycle Board UInt8 :=
  let answer := b.portValue? port
  let value := answer.getD 0xFF
  let unassigned : List Note :=
    if answer.isNone then
      [⟨.stubs, .debug, fun _ => "IN from unassigned " ++ portText port⟩]
    else []
  ⟨value, b.afterPortIn port,
    unassigned ++ [⟨.memory, .trace, fun _ => "IN  " ++ portText port ++ " -> " ++ byteText value⟩]⟩

def accepts (port : UInt16) : Bool :=
  latchedPorts.contains port || port = keyboardDataPort || port = keyboardStatusPort

def portOut (b : Board) (port : UInt16) (v : UInt8) : Cycle Board Unit :=
  let unassigned : List Note :=
    if accepts port then []
    else
      [⟨.stubs, .debug, fun _ =>
        "OUT to unassigned " ++ portText port ++ " (" ++ byteText v ++ ")"⟩]
  ⟨(), { b with ports := b.ports.insert port v },
    ⟨.memory, .trace, fun _ => "OUT " ++ portText port ++ " <- " ++ byteText v⟩ :: unassigned⟩

instance : Bus Board where
  read := read
  write := write
  readBlock := readBlock
  writeBlock := writeBlock
  portIn := portIn
  portOut := portOut

end Board
end RealMode.Pc
