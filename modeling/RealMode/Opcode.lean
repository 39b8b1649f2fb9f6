import RealMode.Instruction

/-! # The opcode map -/
namespace RealMode

/-- An operand that needs no addressing byte. -/
inductive Field where
  | fixed (o : Operand)
  | imm (w : Width)
  /-- One byte, sign-extended to a word. -/
  | immSigned
  /-- A branch target relative to the byte behind it. -/
  | rel8
  | rel16
  | far
  | moffs (w : Width)
  deriving DecidableEq, Repr

/-- An operand of a row with an addressing byte. -/
inductive Slot where
  | reg (w : Width)
  | seg
  | rm (w : Width)
  | mem (w : Width)
  | field (f : Field)
  deriving DecidableEq, Repr

structure Form where
  op : Op
  slots : List Slot
  deriving DecidableEq, Repr

inductive Row where
  | undefined
  | plain (op : Op) (fields : List Field)
  | modRm (form : Form)
  /-- The addressing byte's register field selects the form. -/
  | group (forms : List (Option Form))
  deriving DecidableEq, Repr

namespace Row

def single (op : Op) : Row := plain op []

def string (op : StringOp) : List Row := [single (.string op .byte), single (.string op .word)]

def acc (w : Width) : Field := .fixed (.accumulator w)

def eachReg (f : Field → Row) : List Row := Reg16.all.map fun r => f (.fixed (.reg16 r))

def alu (op : AluOp) : List Row :=
  [modRm ⟨.alu op, [.rm .byte, .reg .byte]⟩,
    modRm ⟨.alu op, [.rm .word, .reg .word]⟩,
    modRm ⟨.alu op, [.reg .byte, .rm .byte]⟩,
    modRm ⟨.alu op, [.reg .word, .rm .word]⟩,
    plain (.alu op) [acc .byte, .imm .byte],
    plain (.alu op) [acc .word, .imm .word]]

def pushSeg (s : SegReg) : Row := plain .push [.fixed (.seg s)]

def popSeg (s : SegReg) : Row := plain .pop [.fixed (.seg s)]

def aluGroup (w : Width) (imm : Field) : Row :=
  group (AluOp.all.map fun op => some ⟨.alu op, [.rm w, .field imm]⟩)

def shiftGroup (w : Width) (count : Field) : Row :=
  group ((List.range 8).map fun i => some ⟨.shift (ShiftOp.ofIndex i), [.rm w, .field count]⟩)

def unaryGroup (w : Width) : Row :=
  group [some ⟨.test, [.rm w, .field (.imm w)]⟩, some ⟨.test, [.rm w, .field (.imm w)]⟩,
    some ⟨.not, [.rm w]⟩, some ⟨.neg, [.rm w]⟩, some ⟨.mul, [.rm w]⟩, some ⟨.imul, [.rm w]⟩,
    some ⟨.div, [.rm w]⟩, some ⟨.idiv, [.rm w]⟩]

def firstOnly (op : Op) (slots : List Slot) : Row :=
  group (some ⟨op, slots⟩ :: List.replicate 7 none)

def escape (i : Nat) : Row :=
  group ((List.range 8).map fun reg => some ⟨.esc (8 * i + reg), [.rm .word]⟩)

end Row

open Row in
/-- The rows in the order of the opcode byte, sixteen to a paragraph. Prefix bytes and the
bytes that are no opcode are undefined. -/
def opcodeMap : Array Row := List.toArray <|
  alu .add ++ [pushSeg .es, popSeg .es] ++ alu .or ++ [pushSeg .cs, undefined] ++

  alu .adc ++ [pushSeg .ss, popSeg .ss] ++ alu .sbb ++ [pushSeg .ds, popSeg .ds] ++

  alu .and ++ [undefined, single .daa] ++ alu .sub ++ [undefined, single .das] ++

  alu .xor ++ [undefined, single .aaa] ++ alu .cmp ++ [undefined, single .aas] ++

  eachReg (fun r => plain .inc [r]) ++ eachReg (fun r => plain .dec [r]) ++

  eachReg (fun r => plain .push [r]) ++ eachReg (fun r => plain .pop [r]) ++

  [single .pusha, single .popa, modRm ⟨.bound, [.reg .word, .mem .word]⟩,
    undefined, undefined, undefined, undefined, undefined,
    plain .push [.imm .word], modRm ⟨.imul3, [.reg .word, .rm .word, .field (.imm .word)]⟩,
    plain .push [.immSigned], modRm ⟨.imul3, [.reg .word, .rm .word, .field .immSigned]⟩] ++
  string .ins ++ string .outs ++

  Condition.all.map (fun c => plain (.jcc c) [.rel8]) ++

  [aluGroup .byte (.imm .byte), aluGroup .word (.imm .word), aluGroup .byte (.imm .byte),
    aluGroup .word .immSigned,
    modRm ⟨.test, [.rm .byte, .reg .byte]⟩, modRm ⟨.test, [.rm .word, .reg .word]⟩,
    modRm ⟨.xchg, [.rm .byte, .reg .byte]⟩, modRm ⟨.xchg, [.rm .word, .reg .word]⟩,
    modRm ⟨.mov, [.rm .byte, .reg .byte]⟩, modRm ⟨.mov, [.rm .word, .reg .word]⟩,
    modRm ⟨.mov, [.reg .byte, .rm .byte]⟩, modRm ⟨.mov, [.reg .word, .rm .word]⟩,
    modRm ⟨.mov, [.rm .word, .seg]⟩, modRm ⟨.lea, [.reg .word, .mem .word]⟩,
    modRm ⟨.mov, [.seg, .rm .word]⟩, firstOnly .pop [.rm .word]] ++

  single .nop :: (eachReg fun r => plain .xchg [acc .word, r]).tail ++
  [single .cbw, single .cwd, plain .callFar [.far], single .wait, single .pushf, single .popf,
    single .sahf, single .lahf] ++

  [plain .mov [acc .byte, .moffs .byte], plain .mov [acc .word, .moffs .word],
    plain .mov [.moffs .byte, acc .byte], plain .mov [.moffs .word, acc .word]] ++
  string .movs ++ string .cmps ++
  [plain .test [acc .byte, .imm .byte], plain .test [acc .word, .imm .word]] ++
  string .stos ++ string .lods ++ string .scas ++

  Reg8.all.map (fun r => plain .mov [.fixed (.reg8 r), .imm .byte]) ++
  eachReg (fun r => plain .mov [r, .imm .word]) ++

  [shiftGroup .byte (.imm .byte), shiftGroup .word (.imm .byte),
    plain .ret [.imm .word], single .ret,
    modRm ⟨.les, [.reg .word, .mem .word]⟩, modRm ⟨.lds, [.reg .word, .mem .word]⟩,
    firstOnly .mov [.rm .byte, .field (.imm .byte)],
    firstOnly .mov [.rm .word, .field (.imm .word)],
    plain .enter [.imm .word, .imm .byte], single .leave,
    plain .retFar [.imm .word], single .retFar,
    single .int3, plain .int [.imm .byte], single .into, single .iret] ++

  [shiftGroup .byte (.fixed (.imm 1 .byte)), shiftGroup .word (.fixed (.imm 1 .byte)),
    shiftGroup .byte (.fixed (.reg8 .cl)), shiftGroup .word (.fixed (.reg8 .cl)),
    plain .aam [.imm .byte], plain .aad [.imm .byte], single .salc, single .xlat] ++
  (List.range 8).map escape ++

  [plain .loopne [.rel8], plain .loope [.rel8], plain .loop [.rel8], plain .jcxz [.rel8],
    plain .input [acc .byte, .imm .byte], plain .input [acc .word, .imm .byte],
    plain .output [.imm .byte, acc .byte], plain .output [.imm .byte, acc .word],
    plain .call [.rel16], plain .jmp [.rel16], plain .jmpFar [.far], plain .jmp [.rel8],
    plain .input [acc .byte, .fixed (.reg16 .dx)], plain .input [acc .word, .fixed (.reg16 .dx)],
    plain .output [.fixed (.reg16 .dx), acc .byte],
    plain .output [.fixed (.reg16 .dx), acc .word]] ++

  [undefined, undefined, undefined, undefined, single .hlt, single .cmc,
    unaryGroup .byte, unaryGroup .word,
    single .clc, single .stc, single .cli, single .sti, single .cld, single .std,
    group ([some ⟨.inc, [.rm .byte]⟩, some ⟨.dec, [.rm .byte]⟩] ++ List.replicate 6 none),
    group [some ⟨.inc, [.rm .word]⟩, some ⟨.dec, [.rm .word]⟩, some ⟨.call, [.rm .word]⟩,
      some ⟨.callFar, [.mem .word]⟩, some ⟨.jmp, [.rm .word]⟩, some ⟨.jmpFar, [.mem .word]⟩,
      some ⟨.push, [.rm .word]⟩, none]]

theorem size_opcodeMap : opcodeMap.size = 256 := by decide +kernel

def Row.ofOpcode (b : UInt8) : Row := opcodeMap.getD b.toNat .undefined

def extendedOpcode (b : UInt8) : Bool :=
  let n := b.toNat
  (0x60 ≤ n && n ≤ 0x62) || (0x68 ≤ n && n ≤ 0x6F) || n == 0xC0 || n == 0xC1 || n == 0xC8 ||
    n == 0xC9

end RealMode
