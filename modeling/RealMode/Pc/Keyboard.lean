import RealMode.Word

/-! # The keyboard

A key waits as a word, the scancode in the high byte and the character in the low byte.
-/
namespace RealMode.Pc

/-- What the keys of the main block type, from scancode 0 on; 0 stands for nothing. -/
def plainKeys : List UInt8 :=
  [0, 0x1B, 0x31, 0x32, 0x33, 0x34, 0x35, 0x36, 0x37, 0x38, 0x39, 0x30, 0x2D, 0x3D, 0x08, 0x09,
    0x71, 0x77, 0x65, 0x72, 0x74, 0x79, 0x75, 0x69, 0x6F, 0x70, 0x5B, 0x5D, 0x0D, 0, 0x61, 0x73,
    0x64, 0x66, 0x67, 0x68, 0x6A, 0x6B, 0x6C, 0x3B, 0x27, 0x60, 0, 0x5C, 0x7A, 0x78, 0x63, 0x76,
    0x62, 0x6E, 0x6D, 0x2C, 0x2E, 0x2F, 0, 0x2A, 0, 0x20]

def shiftedKeys : List UInt8 :=
  [0, 0x1B, 0x21, 0x40, 0x23, 0x24, 0x25, 0x5E, 0x26, 0x2A, 0x28, 0x29, 0x5F, 0x2B, 0x08, 0x09,
    0x51, 0x57, 0x45, 0x52, 0x54, 0x59, 0x55, 0x49, 0x4F, 0x50, 0x7B, 0x7D, 0x0D, 0, 0x41, 0x53,
    0x44, 0x46, 0x47, 0x48, 0x4A, 0x4B, 0x4C, 0x3A, 0x22, 0x7E, 0, 0x7C, 0x5A, 0x58, 0x43, 0x56,
    0x42, 0x4E, 0x4D, 0x3C, 0x3E, 0x3F, 0, 0x2A, 0, 0x20]

def characterOf (scancode : UInt8) : UInt8 := plainKeys.getD scancode.toNat 0

/-- The key that types a character, without Shift if there is one; 0 if there is none. -/
def scancodeOf (character : UInt8) : UInt8 :=
  if character = 0 then 0
  else match plainKeys.idxOf? character <|> shiftedKeys.idxOf? character with
    | some i => UInt8.ofNat i
    | none => 0

structure Keyboard where
  keys : List UInt16
  deriving DecidableEq, Repr

namespace Keyboard

def capacity : Nat := 15

def empty : Keyboard := ⟨[]⟩

def hasKey (k : Keyboard) : Bool := !k.keys.isEmpty

def next? (k : Keyboard) : Option UInt16 := k.keys.head?

def take (k : Keyboard) : Option UInt16 × Keyboard := (k.keys.head?, ⟨k.keys.tail⟩)

def scancode (k : Keyboard) : UInt8 := (k.next?.map highByte).getD 0

def word (scancode character : UInt8) : UInt16 := wordOf character scancode

/-- Queues a key unless the buffer is full; says whether it did. -/
def push (k : Keyboard) (scancode character : UInt8) : Bool × Keyboard :=
  if k.keys.length < capacity then (true, ⟨k.keys ++ [word scancode character]⟩) else (false, k)

def press (k : Keyboard) (scancode : UInt8) : Bool × Keyboard :=
  k.push scancode (characterOf scancode)

/-- The key that pasting a byte presses; a line feed is typed as Enter. -/
def typed (b : UInt8) : UInt16 :=
  let character := if b = 0x0A then 0x0D else b
  word (scancodeOf character) character

def paste (k : Keyboard) (text : String) : Keyboard :=
  ⟨k.keys ++ text.toUTF8.toList.map typed⟩

end Keyboard
end RealMode.Pc
