import RealMode.Condition
import RealMode.Word

/-! # The flags register

The low sixteen bits are the image that is pushed on the stack; bit 1 reads as one.
-/
namespace RealMode

inductive Flag where
  | carry
  | parity
  | auxiliary
  | zero
  | sign
  | trap
  | interrupt
  | direction
  | overflow
  deriving DecidableEq, Repr

namespace Flag

def mask : Flag → UInt32
  | carry => 0x0001
  | parity => 0x0004
  | auxiliary => 0x0010
  | zero => 0x0040
  | sign => 0x0080
  | trap => 0x0100
  | interrupt => 0x0200
  | direction => 0x0400
  | overflow => 0x0800

def bit : Flag → Nat
  | carry => 0
  | parity => 2
  | auxiliary => 4
  | zero => 6
  | sign => 7
  | trap => 8
  | interrupt => 9
  | direction => 10
  | overflow => 11

theorem toBitVec_mask (a : Flag) : a.mask.toBitVec = BitVec.twoPow 32 a.bit := by
  cases a <;> rfl

theorem bit_lt (a : Flag) : a.bit < 32 := by
  cases a <;> decide

theorem bit_inj {a b : Flag} : a.bit = b.bit ↔ a = b := by
  cases a <;> cases b <;> decide

end Flag

structure Flags where
  bits : UInt32
  deriving DecidableEq, Repr

namespace Flags

def reservedMask : UInt32 := 0x0002

def virtualMask : UInt32 := 0x20000

/-- CF, PF, AF, ZF, SF and OF: what a host service hands back to its caller. -/
def statusMask : UInt32 := 0x08D5

/-- The status flags with TF, IF and DF: what POPF and IRET may change. -/
def writableMask : UInt32 := 0x0FD5

def lowMask : UInt32 := 0x00D5

def reset : Flags := ⟨reservedMask⟩

def anySet (f : Flags) (mask : UInt32) : Bool := f.bits &&& mask != 0

def assign (f : Flags) (mask : UInt32) (v : Bool) : Flags :=
  if v then ⟨f.bits ||| mask⟩ else ⟨f.bits &&& ~~~mask⟩

def replace (f : Flags) (mask bits : UInt32) : Flags :=
  ⟨(f.bits &&& ~~~mask) ||| (bits &&& mask)⟩

def get (f : Flags) (flag : Flag) : Bool := f.anySet flag.mask

def set (f : Flags) (flag : Flag) (v : Bool) : Flags := f.assign flag.mask v

/-- The image pushed on the stack. -/
def word (f : Flags) : UInt16 := f.bits.toUInt16

/-- Loads an image from the stack; bit 1 becomes one, the bits above the image stay. -/
def setWord (f : Flags) (w : UInt16) : Flags :=
  (f.replace writableMask w.toUInt32).assign reservedMask true

def lowByte (f : Flags) : UInt8 := f.bits.toUInt8 ||| 0x02

def setLowByte (f : Flags) (b : UInt8) : Flags := f.replace lowMask b.toUInt32

def mergeStatus (f : Flags) (bits : UInt32) : Flags := f.replace statusMask bits

theorem get_eq_getLsbD (f : Flags) (a : Flag) : f.get a = f.bits.toBitVec.getLsbD a.bit := by
  have h : f.get a = (f.bits.toBitVec &&& a.mask.toBitVec != 0) := by
    simp only [get, anySet, bne, BEq.beq, ← UInt32.toBitVec_inj, UInt32.toBitVec_and]
    rfl
  have hz : BitVec.twoPow 32 a.bit ≠ 0#32 := by cases a <;> decide
  rw [h, a.toBitVec_mask, BitVec.and_twoPow]
  split <;> simp_all

@[simp] theorem get_set (f : Flags) (a b : Flag) (v : Bool) :
    (f.set a v).get b = if a = b then v else f.get b := by
  have ha := a.bit_lt
  have hb := b.bit_lt
  simp only [get_eq_getLsbD, set, assign]
  cases v <;> simp [Flag.toBitVec_mask, Flag.bit_inj, *] <;> grind

def holds (f : Flags) : Condition → Bool
  | .o => f.get .overflow
  | .no => !f.get .overflow
  | .b => f.get .carry
  | .ae => !f.get .carry
  | .e => f.get .zero
  | .ne => !f.get .zero
  | .be => f.get .carry || f.get .zero
  | .a => !f.get .carry && !f.get .zero
  | .s => f.get .sign
  | .ns => !f.get .sign
  | .p => f.get .parity
  | .np => !f.get .parity
  | .l => f.get .sign != f.get .overflow
  | .ge => f.get .sign == f.get .overflow
  | .le => f.get .zero || (f.get .sign != f.get .overflow)
  | .g => !f.get .zero && (f.get .sign == f.get .overflow)

def letters (f : Flags) : String :=
  String.ofList <|
    [(Flag.overflow, 'O'), (.direction, 'D'), (.interrupt, 'I'), (.trap, 'T'), (.sign, 'S'),
      (.zero, 'Z'), (.auxiliary, 'A'), (.parity, 'P'), (.carry, 'C')].map fun (flag, c) =>
      if f.get flag then c else '-'

end Flags
end RealMode
