import RealMode.Flags
import RealMode.Width

/-! # Arithmetic and logic with their flags -/
namespace RealMode

def evenParity (b : UInt8) : Bool :=
  ((List.range 8).filter b.toNat.testBit).length % 2 == 0

namespace Flags

/-- ZF, SF and PF of a result; the parity is that of its low byte. -/
def ofResult (f : Flags) (w : Width) (r : Nat) : Flags :=
  let f := f.set .zero (r % w.modulus == 0)
  let f := f.set .sign (w.negative r)
  f.set .parity (evenParity (UInt8.ofNat (r % 256)))

def addCarry (f : Flags) (w : Width) (a b : UInt16) (c : Bool) : UInt16 × Flags :=
  let x := w.low a
  let y := w.low b
  let total := x + y + c.toNat
  let r := total % w.modulus
  let f := f.set .carry (w.modulus ≤ total)
  let f := f.set .overflow (w.negative x == w.negative y && w.negative x != w.negative r)
  let f := f.set .auxiliary (16 ≤ x % 16 + y % 16 + c.toNat)
  (UInt16.ofNat r, f.ofResult w r)

def subBorrow (f : Flags) (w : Width) (a b : UInt16) (c : Bool) : UInt16 × Flags :=
  let x := w.low a
  let y := w.low b
  let r := (x + w.modulus - (y + c.toNat)) % w.modulus
  let f := f.set .carry (x < y + c.toNat)
  let f := f.set .overflow (w.negative x != w.negative y && w.negative x != w.negative r)
  let f := f.set .auxiliary (x % 16 < y % 16 + c.toNat)
  (UInt16.ofNat r, f.ofResult w r)

def add (f : Flags) (w : Width) (a b : UInt16) : UInt16 × Flags := f.addCarry w a b false

def adc (f : Flags) (w : Width) (a b : UInt16) : UInt16 × Flags :=
  f.addCarry w a b (f.get .carry)

def sub (f : Flags) (w : Width) (a b : UInt16) : UInt16 × Flags := f.subBorrow w a b false

def sbb (f : Flags) (w : Width) (a b : UInt16) : UInt16 × Flags :=
  f.subBorrow w a b (f.get .carry)

def inc (f : Flags) (w : Width) (a : UInt16) : UInt16 × Flags :=
  let (r, g) := f.add w a 1
  (r, g.set .carry (f.get .carry))

def dec (f : Flags) (w : Width) (a : UInt16) : UInt16 × Flags :=
  let (r, g) := f.sub w a 1
  (r, g.set .carry (f.get .carry))

/-- A bitwise result clears CF and OF; AF stays. -/
def bitwise (f : Flags) (w : Width) (v : UInt16) : UInt16 × Flags :=
  let r := w.low v
  let f := f.set .carry false
  let f := f.set .overflow false
  (UInt16.ofNat r, f.ofResult w r)

def conj (f : Flags) (w : Width) (a b : UInt16) : UInt16 × Flags := f.bitwise w (a &&& b)

def disj (f : Flags) (w : Width) (a b : UInt16) : UInt16 × Flags := f.bitwise w (a ||| b)

def exclusive (f : Flags) (w : Width) (a b : UInt16) : UInt16 × Flags :=
  f.bitwise w (a ^^^ b)

end Flags

inductive AluOp where
  | add
  | or
  | adc
  | sbb
  | and
  | sub
  | xor
  | cmp
  deriving DecidableEq, Repr

namespace AluOp

def all : List AluOp := [add, or, adc, sbb, and, sub, xor, cmp]

def ofIndex (i : Nat) : AluOp := all.getD (i % 8) cmp

def name : AluOp → String
  | add => "add"
  | or => "or"
  | adc => "adc"
  | sbb => "sbb"
  | and => "and"
  | sub => "sub"
  | xor => "xor"
  | cmp => "cmp"

/-- A comparison is a subtraction whose result is dropped by the caller. -/
def apply (op : AluOp) (f : Flags) (w : Width) (a b : UInt16) : UInt16 × Flags :=
  match op with
  | add => f.add w a b
  | or => f.disj w a b
  | adc => f.adc w a b
  | sbb => f.sbb w a b
  | and => f.conj w a b
  | sub | cmp => f.sub w a b
  | xor => f.exclusive w a b

end AluOp
end RealMode
