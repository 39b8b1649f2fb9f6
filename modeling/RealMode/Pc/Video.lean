import RealMode.Pc.DataArea

/-! # Video services

Every function that exists shows the screen in the data area when it is done.
-/
namespace RealMode.Pc

def unimplemented {H : Type} (c : Cpu Board H) (vector function : UInt8) : Cpu Board H :=
  let ax := c.regs.ax
  let c := c.note .stubs .warn fun _ =>
    "INT 0x" ++ Text.upperHex 2 vector.toNat ++ " function 0x" ++
      Text.upperHex 2 function.toNat ++ " not implemented (AX=" ++ Text.upperHex 4 ax.toNat ++ ")"
  c.setFlag .carry true

namespace Video

variable {H : Type}

def cursorShape : UInt16 := 0x0607

def onBoard (c : Cpu Board H) (f : Board → Board) : Cpu Board H := { c with memory := f c.memory }

def onDisplay (c : Cpu Board H) (f : Display → Display) : Cpu Board H :=
  onBoard c (·.onDisplay f)

/-- Sets the mode in AL. Bit 7 keeps the contents of the screen. -/
def setMode (c : Cpu Board H) : Cpu Board H :=
  let request := c.regs.get8 .al
  let mode := request &&& 0x7F
  if request &&& 0x80 = 0 then onDisplay c (·.setMode mode)
  else onBoard c fun b => { b with screen := { b.screen with mode := mode } }

def moveCursor (c : Cpu Board H) : Cpu Board H :=
  let r := c.regs
  onBoard c fun b =>
    { b with screen := b.screen.moveTo (r.get8 .dh).toNat (r.get8 .dl).toNat }

def askCursor (c : Cpu Board H) : Cpu Board H :=
  let s := c.memory.screen
  let c := c.setReg .cx cursorShape
  let c := c.setReg8 .dh (UInt8.ofNat s.row)
  c.setReg8 .dl (UInt8.ofNat s.col)

/-- There is one display page. -/
def selectPage (c : Cpu Board H) : Cpu Board H :=
  let page := c.regs.get8 .al
  if page = 0 then c
  else c.note .stubs .debug fun _ =>
    "INT 10h: display page " ++ toString page.toNat ++ " not supported"

def window (r : Registers) : Window :=
  .ofCorners (r.get8 .ch) (r.get8 .cl) (r.get8 .dh) (r.get8 .dl)

def scrollUp (c : Cpu Board H) : Cpu Board H :=
  let r := c.regs
  onDisplay c (·.onPage (·.scrollUp? (window r) (r.get8 .al).toNat (r.get8 .bh)))

def scrollDown (c : Cpu Board H) : Cpu Board H :=
  let r := c.regs
  onDisplay c (·.onPage (·.scrollDown? (window r) (r.get8 .al).toNat (r.get8 .bh)))

def readCell (c : Cpu Board H) : Cpu Board H :=
  match c.memory.page.cell? c.memory.screen.cursor with
  | some cell => (c.setReg8 .al cell.character).setReg8 .ah cell.colour
  | none => onBoard c fun b => { b with failed := true }

def writeColoured (c : Cpu Board H) : Cpu Board H :=
  let r := c.regs
  onDisplay c fun d => d.putCharacter (r.get8 .al) (some (r.get8 .bl)) r.cx.toNat

def writePlain (c : Cpu Board H) : Cpu Board H :=
  let r := c.regs
  onDisplay c fun d => d.putCharacter (r.get8 .al) none r.cx.toNat

def teletype (c : Cpu Board H) : Cpu Board H :=
  let character := c.regs.get8 .al
  onBoard c (·.teletype character)

def askMode (c : Cpu Board H) : Cpu Board H :=
  let mode := c.memory.screen.mode
  let c := c.setReg8 .al mode
  let c := c.setReg8 .ah (UInt8.ofNat columns)
  c.setReg8 .bh 0

def writeRun (d : Display) (cells : List Cell) : Display :=
  cells.foldl (fun d x => (d.putCharacter x.character (some x.colour) 1).advance) d

/-- The cells of a string: pairs of character and colour, or characters of one colour. -/
def stringCells (c : Cpu Board H) (withColours : Bool) : List Cell :=
  let r := c.regs
  let byteAt (i : Nat) : UInt8 := Bus.getByte c.memory r.es (r.bp + UInt16.ofNat i)
  (List.range r.cx.toNat).map fun i =>
    if withColours then ⟨byteAt (2 * i), byteAt (2 * i + 1)⟩ else ⟨byteAt i, r.get8 .bl⟩

/-- Writes the string at ES:BP from a position on. Bit 0 of AL leaves the cursor behind it, bit
1 says that the string has its own colours. -/
def writeString (c : Cpu Board H) : Cpu Board H :=
  let r := c.regs
  let al := r.get8 .al
  let cells := stringCells c (al &&& 2 != 0)
  let saved := c.memory.screen
  onDisplay c fun d =>
    let d := { d with screen := d.screen.moveTo (r.get8 .dh).toNat (r.get8 .dl).toNat }
    let d := writeRun d cells
    if al &&& 1 = 0 then { d with screen := d.screen.moveTo saved.row saved.col } else d

def function? (ah : UInt8) : Option (Cpu Board H → Cpu Board H) :=
  match ah.toNat with
  | 0x00 => some setMode
  | 0x01 => some id
  | 0x02 => some moveCursor
  | 0x03 => some askCursor
  | 0x05 => some selectPage
  | 0x06 => some scrollUp
  | 0x07 => some scrollDown
  | 0x08 => some readCell
  | 0x09 => some writeColoured
  | 0x0A => some writePlain
  | 0x0E => some teletype
  | 0x0F => some askMode
  | 0x13 => some writeString
  | _ => none

def callText (r : Registers) : String :=
  "INT 10h AH=" ++ Text.upperHex 2 (r.get8 .ah).toNat ++ " AL=" ++
    Text.upperHex 2 (r.get8 .al).toNat

def serve (c : Cpu Board H) : Cpu Board H :=
  let r := c.regs
  let c := c.note .bios .trace fun _ => callText r
  match function? (r.get8 .ah) with
  | some f => onBoard (f c) Board.publishScreen
  | none => unimplemented c 0x10 (r.get8 .ah)

end Video
end RealMode.Pc
