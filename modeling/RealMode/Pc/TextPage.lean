import RealMode.Ram

/-! # The text page

An access to bytes that the page does not have gives nothing.
-/
namespace RealMode.Pc

def columns : Nat := 80

def rows : Nat := 25

def cellCount : Nat := columns * rows

def pageSize : Nat := 2 * cellCount

def position (row col : Nat) : Nat := row * columns + col

def defaultColour : UInt8 := 0x07

def blankCharacter : UInt8 := 0x20

structure Cell where
  character : UInt8
  colour : UInt8
  deriving DecidableEq, Repr

structure TextPage where
  bytes : ByteArray
  size_eq : bytes.size = pageSize

/-- A rectangle of cells; all four bounds belong to it. -/
structure Window where
  top : Nat
  left : Nat
  bottom : Nat
  right : Nat
  deriving DecidableEq, Repr

namespace Window

def full : Window := ⟨0, 0, rows - 1, columns - 1⟩

/-- The window between two corners, cut off at the edge of the page. -/
def ofCorners (top left bottom right : UInt8) : Window :=
  ⟨top.toNat, left.toNat, min bottom.toNat (rows - 1), min right.toNat (columns - 1)⟩

def isEmpty (w : Window) : Bool := w.bottom < w.top || w.right < w.left

def height (w : Window) : Nat := w.bottom + 1 - w.top

def width (w : Window) : Nat := w.right + 1 - w.left

/-- How far a scroll by `lines` goes: zero means all the way. -/
def shift (w : Window) (lines : Nat) : Nat :=
  if lines = 0 then w.height else min lines w.height

end Window

def blankCells (n : Nat) (colour : UInt8) : ByteArray :=
  tabulate (2 * n) fun i => if i % 2 = 0 then blankCharacter else colour

/-- The steps of a loop, up to the first that gives nothing. -/
def loop? {α : Type} (n : Nat) (f : Nat → α → Option α) (a : α) : Option α :=
  n.fold (fun i _ a => a.bind (f i)) (some a)

namespace TextPage

def zero : TextPage := ⟨tabulate pageSize fun _ => 0, size_tabulate _ _⟩

def byte? (p : TextPage) (i : Nat) : Option UInt8 :=
  if h : i < pageSize then
    have : i < p.bytes.size := by rw [p.size_eq]; exact h
    some p.bytes[i]
  else none

def byte (p : TextPage) (i : Nat) : UInt8 := (p.byte? i).getD 0

def setByte? (p : TextPage) (i : Nat) (v : UInt8) : Option TextPage :=
  if h : i < pageSize then
    have hi : i < p.bytes.size := by rw [p.size_eq]; exact h
    some ⟨p.bytes.set i v hi, by rw [size_setByte, p.size_eq]⟩
  else none

def cells? (p : TextPage) (n count : Nat) : Option ByteArray :=
  if 2 * (n + count) ≤ pageSize then some (p.bytes.extract (2 * n) (2 * (n + count))) else none

def setCells? (p : TextPage) (n : Nat) (data : ByteArray) : Option TextPage :=
  if h : 2 * n + data.size ≤ pageSize then
    some ⟨data.copySlice 0 p.bytes (2 * n) data.size, by
      rw [size_copySlice_of_le (by rw [p.size_eq]; exact h), p.size_eq]⟩
  else none

def cell? (p : TextPage) (n : Nat) : Option Cell := do
  let character ← p.byte? (2 * n)
  let colour ← p.byte? (2 * n + 1)
  return ⟨character, colour⟩

def cell (p : TextPage) (n : Nat) : Cell := ⟨p.byte (2 * n), p.byte (2 * n + 1)⟩

/-- Writes a character; without a colour the cell keeps the one it has. -/
def setCharacter? (p : TextPage) (n : Nat) (character : UInt8) : Option UInt8 → Option TextPage
  | none => p.setByte? (2 * n) character
  | some colour => do
    let p ← p.setByte? (2 * n) character
    p.setByte? (2 * n + 1) colour

def setCharacter (p : TextPage) (n : Nat) (character : UInt8) (colour : Option UInt8) :
    TextPage := (p.setCharacter? n character colour).getD p

def setCharacters? (p : TextPage) (n : Nat) (character : UInt8) (colour : Option UInt8)
    (count : Nat) : Option TextPage :=
  loop? (min count (cellCount - n)) (fun i p => p.setCharacter? (n + i) character colour) p

def copyRow? (p : TextPage) (w : Window) (source target : Nat) : Option TextPage := do
  let data ← p.cells? (position source w.left) w.width
  p.setCells? (position target w.left) data

def blankRow? (p : TextPage) (w : Window) (row : Nat) (colour : UInt8) : Option TextPage :=
  p.setCells? (position row w.left) (blankCells w.width colour)

def scrollUp? (p : TextPage) (w : Window) (lines : Nat) (colour : UInt8) : Option TextPage :=
  if w.isEmpty then some p
  else
    loop? w.height (fun i p =>
      let row := w.top + i
      if row + w.shift lines ≤ w.bottom then p.copyRow? w (row + w.shift lines) row
      else p.blankRow? w row colour) p

def scrollUp (p : TextPage) (w : Window) (lines : Nat) (colour : UInt8) : TextPage :=
  (p.scrollUp? w lines colour).getD p

def scrollDown? (p : TextPage) (w : Window) (lines : Nat) (colour : UInt8) : Option TextPage :=
  if w.isEmpty then some p
  else
    loop? w.height (fun i p =>
      let row := w.bottom - i
      if w.top + w.shift lines ≤ row then p.copyRow? w (row - w.shift lines) row
      else p.blankRow? w row colour) p

def scrollDown (p : TextPage) (w : Window) (lines : Nat) (colour : UInt8) : TextPage :=
  (p.scrollDown? w lines colour).getD p

/-- How a character byte reads: only printable ASCII shows. -/
def visible (v : UInt8) : Char :=
  if 0x20 ≤ v.toNat ∧ v.toNat ≤ 0x7E then Char.ofNat v.toNat else ' '

def rowText (p : TextPage) (row : Nat) : List Char :=
  let line := (List.range columns).map fun col => visible (p.cell (position row col)).character
  (line.reverse.dropWhile (· = ' ')).reverse

/-- The rows from the top to the last one that shows anything. -/
def lines (p : TextPage) : List (List Char) :=
  (((List.range rows).map p.rowText).reverse.dropWhile (·.isEmpty)).reverse

def text (p : TextPage) : String := "\n".intercalate (p.lines.map String.ofList)

end TextPage
end RealMode.Pc
