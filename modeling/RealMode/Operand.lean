import RealMode.Address
import RealMode.Registers
import RealMode.Text.Hex
import RealMode.Width

/-! # Operands

A memory reference is bound when it is decoded: it holds the segment value and the effective
address of that moment.
-/
namespace RealMode

structure ModRm where
  mode : Nat
  reg : Nat
  rm : Nat
  deriving DecidableEq, Repr

namespace ModRm

def ofByte (b : UInt8) : ModRm := ⟨b.toNat / 64, b.toNat / 8 % 8, b.toNat % 8⟩

def isRegister (m : ModRm) : Bool := m.mode == 3

def displacementSize (m : ModRm) : Nat :=
  match m.mode with
  | 0 => if m.rm = 6 then 2 else 0
  | 1 => 1
  | 2 => 2
  | _ => 0

end ModRm

inductive AddressBase where
  | bxSi
  | bxDi
  | bpSi
  | bpDi
  | si
  | di
  | bp
  | bx
  | direct
  deriving DecidableEq, Repr

namespace AddressBase

def ofModRm (m : ModRm) : AddressBase :=
  match m.rm with
  | 0 => bxSi
  | 1 => bxDi
  | 2 => bpSi
  | 3 => bpDi
  | 4 => si
  | 5 => di
  | 6 => if m.mode = 0 then direct else bp
  | _ => bx

def defaultSegment : AddressBase → SegReg
  | bpSi | bpDi | bp => .ss
  | bxSi | bxDi | si | di | bx | direct => .ds

def sum (r : Registers) : AddressBase → UInt16
  | bxSi => r.bx + r.si
  | bxDi => r.bx + r.di
  | bpSi => r.bp + r.si
  | bpDi => r.bp + r.di
  | si => r.si
  | di => r.di
  | bp => r.bp
  | bx => r.bx
  | direct => 0

def name? : AddressBase → Option String
  | bxSi => some "bx+si"
  | bxDi => some "bx+di"
  | bpSi => some "bp+si"
  | bpDi => some "bp+di"
  | si => some "si"
  | di => some "di"
  | bp => some "bp"
  | bx => some "bx"
  | direct => none

end AddressBase

structure MemoryRef where
  segReg : SegReg
  segment : UInt16
  offset : UInt16
  base : AddressBase
  /-- The displacement modulo 65536. -/
  displacement : UInt16
  explicit : Bool
  deriving DecidableEq, Repr

namespace MemoryRef

def physical (m : MemoryRef) : Nat := RealMode.physical m.segment m.offset

def advanced (m : MemoryRef) (delta : UInt16) : MemoryRef :=
  { m with offset := m.offset + delta, displacement := m.displacement + delta }

def direct (r : Registers) (segReg : SegReg) (offset : UInt16) (explicit : Bool) : MemoryRef :=
  ⟨segReg, r.getSeg segReg, offset, .direct, offset, explicit⟩

def signedDisplacement (m : MemoryRef) : Int := Width.word.signed m.displacement

def text (m : MemoryRef) : String :=
  let segment := if m.explicit then m.segReg.name ++ ":" else ""
  let address :=
    match m.base.name? with
    | none => "0x" ++ Text.hex 4 m.displacement.toNat
    | some base =>
      let d := m.signedDisplacement
      if d = 0 then base
      else base ++ (if d < 0 then "-0x" else "+0x") ++ Text.hex 2 d.natAbs
  segment ++ "[" ++ address ++ "]"

end MemoryRef

inductive Operand where
  | reg8 (r : Reg8)
  | reg16 (r : Reg16)
  | seg (s : SegReg)
  | mem (m : MemoryRef) (w : Width)
  | imm (v : UInt16) (w : Width)
  | near (target : UInt16)
  | far (segment offset : UInt16)
  deriving DecidableEq, Repr

namespace Operand

def width : Operand → Width
  | reg8 _ => .byte
  | mem _ w | imm _ w => w
  | reg16 _ | seg _ | near _ | far _ _ => .word

def isMemory : Operand → Bool
  | mem _ _ => true
  | _ => false

def register (i : Nat) : Width → Operand
  | .byte => reg8 (Reg8.ofIndex i)
  | .word => reg16 (Reg16.ofIndex i)

def accumulator : Width → Operand
  | .byte => reg8 .al
  | .word => reg16 .ax

/-- The operand that an addressing byte and the displacement behind it name. A displacement
of one byte is sign-extended. -/
def ofModRm (r : Registers) (m : ModRm) (displacement : UInt16) (w : Width)
    (override : Option SegReg) : Operand :=
  if m.isRegister then register m.rm w
  else
    let d :=
      match m.displacementSize with
      | 0 => 0
      | 1 => signExtend (lowByte displacement)
      | _ => displacement
    let base := AddressBase.ofModRm m
    let segReg := override.getD base.defaultSegment
    mem ⟨segReg, r.getSeg segReg, base.sum r + d, base, d, override.isSome⟩ w

def text : Operand → String
  | reg8 r => r.name
  | reg16 r => r.name
  | seg s => s.name
  | mem m .byte => "byte " ++ m.text
  | mem m .word => "word " ++ m.text
  | imm v .byte => "0x" ++ Text.hex 2 (v.toNat % 256)
  | imm v .word => "0x" ++ Text.hex 4 v.toNat
  | near target => "0x" ++ Text.hex 4 target.toNat
  | far segment offset => "0x" ++ Text.hex 4 segment.toNat ++ ":0x" ++ Text.hex 4 offset.toNat

end Operand
end RealMode
