import RealMode.Bus.Segmented
import RealMode.Model
import RealMode.Opcode

/-! # Decoding

Decoding never fails: bytes that are no instruction come back as `db` or `dw`.
-/
namespace RealMode

inductive DecodeFault where
  | invalidOpcode (opcode : UInt8)
  | invalidExtension (opcode : UInt8) (reg : Nat)
  | requires80186 (opcode : UInt8)
  | registerOperand (opcode : UInt8)
  | tooManyPrefixes
  deriving DecidableEq, Repr

def DecodeFault.message : DecodeFault → String
  | invalidOpcode b => "invalid opcode 0x" ++ Text.upperHex 2 b.toNat
  | invalidExtension b reg =>
    "invalid extension /" ++ toString reg ++ " for opcode 0x" ++ Text.upperHex 2 b.toNat
  | requires80186 b => "opcode 0x" ++ Text.upperHex 2 b.toNat ++ " requires an 80186"
  | registerOperand b => "opcode 0x" ++ Text.upperHex 2 b.toNat ++ " requires a memory operand"
  | tooManyPrefixes => "too many prefix bytes"

/-- What the decoder sees: the bytes from the instruction on, its offset, and the registers
and model that operands are bound to. -/
structure CodeView where
  code : Nat → UInt8
  ip : UInt16
  regs : Registers
  model : Model

def CodeView.word (v : CodeView) (i : Nat) : UInt16 := wordOf (v.code i) (v.code (i + 1))

structure Prefixes where
  segment : Option SegReg
  repeated : Option Repeat
  lock : Bool
  deriving DecidableEq, Repr

namespace Prefixes

def none : Prefixes := ⟨.none, .none, false⟩

/-- The prefixes with one byte more, if it is a prefix. The last of a kind counts. -/
def add? (p : Prefixes) (b : UInt8) : Option Prefixes :=
  match b.toNat with
  | 0x26 => some { p with segment := some .es }
  | 0x2E => some { p with segment := some .cs }
  | 0x36 => some { p with segment := some .ss }
  | 0x3E => some { p with segment := some .ds }
  | 0xF0 => some { p with lock := true }
  | 0xF2 => some { p with repeated := some .repne }
  | 0xF3 => some { p with repeated := some .rep }
  | _ => .none

/-- The prefixes from byte `i` on and the place of the opcode behind them, if fewer than
`budget` bytes are prefixes. -/
def scan (code : Nat → UInt8) (budget : Nat) (p : Prefixes) (i : Nat) : Option (Prefixes × Nat) :=
  match budget with
  | 0 => .none
  | budget + 1 =>
    match p.add? (code i) with
    | some q => scan code budget q (i + 1)
    | .none => some (p, i)

end Prefixes

def prefixBudget : Nat := 15

namespace Field

def size : Field → Nat
  | fixed _ => 0
  | imm w => w.bytes
  | immSigned | rel8 => 1
  | rel16 | moffs _ => 2
  | far => 4

def operand (v : CodeView) (override : Option SegReg) (i : Nat) : Field → Operand
  | fixed o => o
  | imm .byte => .imm (wordOfByte (v.code i)) .byte
  | imm .word => .imm (v.word i) .word
  | immSigned => .imm (signExtend (v.code i)) .word
  | rel8 => .near (v.ip + UInt16.ofNat (i + 1) + signExtend (v.code i))
  | rel16 => .near (v.ip + UInt16.ofNat (i + 2) + v.word i)
  | far => .far (v.word (i + 2)) (v.word i)
  | moffs w => .mem (.direct v.regs (override.getD .ds) (v.word i) override.isSome) w

def operands (v : CodeView) (override : Option SegReg) : List Field → Nat → List Operand
  | [], _ => []
  | f :: fs, i => f.operand v override i :: operands v override fs (i + f.size)

def totalSize (fs : List Field) : Nat := fs.foldr (fun f n => size f + n) 0

end Field

namespace Slot

def size (m : ModRm) : Slot → Nat
  | reg _ | seg => 0
  | rm _ | mem _ => m.displacementSize
  | field f => f.size

def displacement (v : CodeView) (m : ModRm) (i : Nat) : UInt16 :=
  match m.displacementSize with
  | 0 => 0
  | 1 => wordOfByte (v.code i)
  | _ => v.word i

def operand (v : CodeView) (override : Option SegReg) (m : ModRm) (i : Nat) : Slot → Operand
  | reg w => .register m.reg w
  | seg => .seg (.ofIndex m.reg)
  | rm w | mem w => .ofModRm v.regs m (displacement v m i) w override
  | field f => f.operand v override i

def operands (v : CodeView) (override : Option SegReg) (m : ModRm) :
    List Slot → Nat → List Operand
  | [], _ => []
  | s :: ss, i => s.operand v override m i :: operands v override m ss (i + s.size m)

def totalSize (m : ModRm) (ss : List Slot) : Nat := ss.foldr (fun s n => size m s + n) 0

def isMem : Slot → Bool
  | mem _ => true
  | _ => false

end Slot

structure Decoded where
  instruction : Instruction
  fault : Option DecodeFault
  deriving DecidableEq, Repr

namespace Decoded

/-- A repetition prefix counts only on string instructions. -/
def instr (p : Prefixes) (op : Op) (operands : List Operand) (length : Nat) : Decoded :=
  ⟨⟨op, operands, if op.isString then p.repeated else none, p.lock, p.segment, length⟩, none⟩

/-- The first byte alone if no more was looked at, else the first two. -/
def data (v : CodeView) (consumed : Nat) (fault : DecodeFault) : Decoded :=
  if consumed ≤ 1 then ⟨.bare .db [.imm (wordOfByte (v.code 0)) .byte] 1, some fault⟩
  else ⟨.bare .dw [.imm (v.word 0) .word] 2, some fault⟩

def ofForm (v : CodeView) (p : Prefixes) (opcode : UInt8) (i : Nat) (form : Form) : Decoded :=
  let m := ModRm.ofByte (v.code i)
  if m.isRegister && form.slots.any Slot.isMem then data v (i + 1) (.registerOperand opcode)
  else
    instr p form.op (Slot.operands v p.segment m form.slots (i + 1))
      (i + 1 + Slot.totalSize m form.slots)

def ofRow (v : CodeView) (p : Prefixes) (opcode : UInt8) (i : Nat) : Row → Decoded
  | .undefined => data v (i + 1) (.invalidOpcode opcode)
  | .plain op fields =>
    instr p op (Field.operands v p.segment fields (i + 1)) (i + 1 + Field.totalSize fields)
  | .modRm form => ofForm v p opcode (i + 1) form
  | .group forms =>
    let reg := (ModRm.ofByte (v.code (i + 1))).reg
    match forms.getD reg none with
    | some form => ofForm v p opcode (i + 1) form
    | none => data v (i + 2) (.invalidExtension opcode reg)

end Decoded

def decode (v : CodeView) : Decoded :=
  match Prefixes.scan v.code prefixBudget .none 0 with
  | none => .data v prefixBudget .tooManyPrefixes
  | some (p, i) =>
    let opcode := v.code i
    if extendedOpcode opcode && !v.model.extended then .data v (i + 1) (.requires80186 opcode)
    else .ofRow v p opcode i (.ofOpcode opcode)

def CodeView.ofBus {M : Type} [Bus M] (m : M) (regs : Registers) (model : Model)
    (cs ip : UInt16) : CodeView :=
  ⟨fun i => Bus.getByte m cs (ip + UInt16.ofNat i), ip, regs, model⟩

def decodeAt {M : Type} [Bus M] (m : M) (regs : Registers) (model : Model) (cs ip : UInt16) :
    Decoded :=
  decode (.ofBus m regs model cs ip)

def Decoded.notes (d : Decoded) (cs ip : UInt16) : List Note :=
  match d.fault with
  | none => []
  | some fault =>
    [⟨.decoder, .debug, fun _ =>
      Text.upperHex 4 cs.toNat ++ ":" ++ Text.upperHex 4 ip.toNat ++ " " ++ fault.message ++
        " -> " ++ d.instruction.text⟩]

end RealMode
