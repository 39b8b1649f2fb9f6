/-! # Operand widths

Values travel as words; a width says how many of their low bits count.
-/
namespace RealMode

inductive Width where
  | byte
  | word
  deriving DecidableEq, Repr

namespace Width

def bits : Width → Nat
  | byte => 8
  | word => 16

def bytes : Width → Nat
  | byte => 1
  | word => 2

def modulus : Width → Nat
  | byte => 0x100
  | word => 0x10000

/-- The lowest bit of most opcodes selects the width. -/
def ofOpcode (opcode : UInt8) : Width :=
  if opcode.toNat % 2 = 1 then word else byte

def low (w : Width) (v : UInt16) : Nat := v.toNat % w.modulus

/-- The two's-complement value of the bits that count. -/
def signed (w : Width) (v : UInt16) : Int := Int.bmod v.toNat w.modulus

def negative (w : Width) (n : Nat) : Bool := w.modulus / 2 ≤ n % w.modulus

def truncate (w : Width) (v : UInt16) : UInt16 := UInt16.ofNat (w.low v)

def mask (w : Width) : UInt16 := UInt16.ofNat (w.modulus - 1)

def signBit (w : Width) : UInt16 := UInt16.ofNat (w.modulus / 2)

theorem modulus_pos (w : Width) : 0 < w.modulus := by
  cases w <;> decide

theorem low_lt (w : Width) (v : UInt16) : w.low v < w.modulus :=
  Nat.mod_lt _ w.modulus_pos

end Width
end RealMode
