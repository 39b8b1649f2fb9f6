import RealMode.Pc.TextPage

/-! # The screen -/
namespace RealMode.Pc

structure Screen where
  row : Nat
  col : Nat
  mode : UInt8
  deriving DecidableEq, Repr

structure Display where
  screen : Screen
  page : TextPage
  /-- Whether an access has missed the page, where the emulator would stop. -/
  failed : Bool

def defaultMode : UInt8 := 0x03

def carriageReturn : UInt8 := 0x0D

def lineFeedCharacter : UInt8 := 0x0A

def backspace : UInt8 := 0x08

def bell : UInt8 := 0x07

namespace Screen

def start : Screen := ⟨0, 0, defaultMode⟩

/-- Moves the cursor, at most to the last row and column. -/
def moveTo (s : Screen) (row col : Nat) : Screen :=
  { s with row := min row (rows - 1), col := min col (columns - 1) }

def home (s : Screen) : Screen := { s with row := 0, col := 0 }

def cursor (s : Screen) : Nat := position s.row s.col

end Screen

namespace Display

def onPage (d : Display) (f : TextPage → Option TextPage) : Display :=
  let page? := f d.page
  { d with page := page?.getD d.page, failed := d.failed || page?.isNone }

theorem onPage_of_some {d : Display} {f : TextPage → Option TextPage} {page : TextPage}
    (h : f d.page = some page) : d.onPage f = { d with page := page } := by
  simp only [onPage, h, Option.getD_some, Option.isNone_some, Bool.or_false]

def clear (d : Display) : Display :=
  let d := d.onPage (·.scrollUp? .full 0 defaultColour)
  { d with screen := d.screen.home }

def setMode (d : Display) (mode : UInt8) : Display :=
  clear { d with screen := { d.screen with mode := mode } }

/-- Writes copies of a character from the cursor on and leaves the cursor where it is. -/
def putCharacter (d : Display) (character : UInt8) (colour : Option UInt8) (count : Nat) :
    Display :=
  d.onPage (·.setCharacters? d.screen.cursor character colour count)

def lineFeed (d : Display) : Display :=
  if d.screen.row < rows - 1 then
    { d with screen := { d.screen with row := d.screen.row + 1 } }
  else
    d.onPage (·.scrollUp? .full 1 defaultColour)

def advance (d : Display) : Display :=
  if d.screen.col + 1 < columns then
    { d with screen := { d.screen with col := d.screen.col + 1 } }
  else
    lineFeed { d with screen := { d.screen with col := 0 } }

/-- Four control characters act; all other bytes are written and advance the cursor. -/
def teletype (d : Display) (character : UInt8) : Display :=
  if character = carriageReturn then { d with screen := { d.screen with col := 0 } }
  else if character = lineFeedCharacter then d.lineFeed
  else if character = backspace then { d with screen := { d.screen with col := d.screen.col - 1 } }
  else if character = bell then d
  else (d.putCharacter character (some defaultColour) 1).advance

end Display
end RealMode.Pc
