import RealMode.Arithmetic

/-! # Shifts and rotates

A count of `n` is `n` one-bit steps.
-/
namespace RealMode

inductive ShiftOp where
  | rol
  | ror
  | rcl
  | rcr
  | shl
  | shr
  | sar
  deriving DecidableEq, Repr

namespace ShiftOp

/-- Field 6 is a second name of the left shift. -/
def ofIndex (i : Nat) : ShiftOp :=
  match i % 8 with
  | 0 => rol
  | 1 => ror
  | 2 => rcl
  | 3 => rcr
  | 4 | 6 => shl
  | 5 => shr
  | _ => sar

def name : ShiftOp → String
  | rol => "rol"
  | ror => "ror"
  | rcl => "rcl"
  | rcr => "rcr"
  | shl => "shl"
  | shr => "shr"
  | sar => "sar"

def isRotate : ShiftOp → Bool
  | rol | ror | rcl | rcr => true
  | shl | shr | sar => false

/-- One bit further, on a value below the modulus and the carry. -/
def step (op : ShiftOp) (w : Width) (s : Nat × Bool) : Nat × Bool :=
  let (r, c) := s
  let top := w.negative r
  let bottom := r % 2 == 1
  let left (b : Bool) := (2 * r + b.toNat) % w.modulus
  let right (b : Bool) := r / 2 + b.toNat * (w.modulus / 2)
  match op with
  | rol => (left top, top)
  | rcl => (left c, top)
  | shl => (left false, top)
  | ror => (right bottom, bottom)
  | rcr => (right c, bottom)
  | shr => (right false, bottom)
  | sar => (right top, bottom)

/-- OF after a count of one, from the value before and the value and carry after. -/
def overflow (op : ShiftOp) (w : Width) (before after : Nat) (c : Bool) : Bool :=
  match op with
  | rol | rcl | shl => w.negative after != c
  | ror | rcr => w.negative after != w.negative (2 * after)
  | shr => w.negative before
  | sar => false

def apply (op : ShiftOp) (f : Flags) (w : Width) (v : UInt16) (count : Nat) : UInt16 × Flags :=
  let before := w.low v
  let (after, c) := Nat.repeat (op.step w) count (before, f.get .carry)
  let f := if count = 1 then f.set .overflow (op.overflow w before after c) else f
  let f := f.set .carry c
  (UInt16.ofNat after, if op.isRotate then f else f.ofResult w after)

end ShiftOp
end RealMode
