import RealMode.Operand
import RealMode.Shift

/-! # Instructions -/
namespace RealMode

inductive StringOp where
  | movs
  | cmps
  | stos
  | lods
  | scas
  | ins
  | outs
  deriving DecidableEq, Repr

namespace StringOp

def name : StringOp → String
  | movs => "movs"
  | cmps => "cmps"
  | stos => "stos"
  | lods => "lods"
  | scas => "scas"
  | ins => "ins"
  | outs => "outs"

def isCompare : StringOp → Bool
  | cmps | scas => true
  | movs | stos | lods | ins | outs => false

end StringOp

inductive Op where
  | alu (op : AluOp)
  | inc
  | dec
  | neg
  | not
  | mul
  | imul
  | div
  | idiv
  | imul3
  | test
  | shift (op : ShiftOp)
  | xchg
  | mov
  | lea
  | lds
  | les
  | push
  | pop
  | pusha
  | popa
  | pushf
  | popf
  | lahf
  | sahf
  | cbw
  | cwd
  | xlat
  | salc
  | daa
  | das
  | aaa
  | aas
  | aam
  | aad
  | jcc (c : Condition)
  | jmp
  | jmpFar
  | call
  | callFar
  | ret
  | retFar
  | loop
  | loope
  | loopne
  | jcxz
  | int
  | int3
  | into
  | iret
  | enter
  | leave
  | bound
  | input
  | output
  | string (op : StringOp) (w : Width)
  | clc
  | stc
  | cmc
  | cld
  | std
  | cli
  | sti
  | hlt
  | wait
  | nop
  /-- An instruction for a coprocessor, with its number. -/
  | esc (n : Nat)
  | db
  | dw
  deriving DecidableEq, Repr

namespace Op

def isString : Op → Bool
  | string _ _ => true
  | _ => false

/-- The instructions whose repetition watches ZF. -/
def isCompare : Op → Bool
  | string op _ => op.isCompare
  | _ => false

def mnemonic : Op → String
  | alu op => op.name
  | inc => "inc"
  | dec => "dec"
  | neg => "neg"
  | not => "not"
  | mul => "mul"
  | imul | imul3 => "imul"
  | div => "div"
  | idiv => "idiv"
  | test => "test"
  | shift op => op.name
  | xchg => "xchg"
  | mov => "mov"
  | lea => "lea"
  | lds => "lds"
  | les => "les"
  | push => "push"
  | pop => "pop"
  | pusha => "pusha"
  | popa => "popa"
  | pushf => "pushf"
  | popf => "popf"
  | lahf => "lahf"
  | sahf => "sahf"
  | cbw => "cbw"
  | cwd => "cwd"
  | xlat => "xlat"
  | salc => "salc"
  | daa => "daa"
  | das => "das"
  | aaa => "aaa"
  | aas => "aas"
  | aam => "aam"
  | aad => "aad"
  | jcc c => "j" ++ c.name
  | jmp => "jmp"
  | jmpFar => "jmp far"
  | call => "call"
  | callFar => "call far"
  | ret => "ret"
  | retFar => "retf"
  | loop => "loop"
  | loope => "loope"
  | loopne => "loopne"
  | jcxz => "jcxz"
  | int => "int"
  | int3 => "int3"
  | into => "into"
  | iret => "iret"
  | enter => "enter"
  | leave => "leave"
  | bound => "bound"
  | input => "in"
  | output => "out"
  | string op .byte => op.name ++ "b"
  | string op .word => op.name ++ "w"
  | clc => "clc"
  | stc => "stc"
  | cmc => "cmc"
  | cld => "cld"
  | std => "std"
  | cli => "cli"
  | sti => "sti"
  | hlt => "hlt"
  | wait => "wait"
  | nop => "nop"
  | esc _ => "esc"
  | db => "db"
  | dw => "dw"

end Op

/-- How a string instruction is repeated; only comparisons tell the two apart. -/
inductive Repeat where
  | rep
  | repne
  deriving DecidableEq, Repr

structure Instruction where
  op : Op
  operands : List Operand
  repeated : Option Repeat
  lock : Bool
  override : Option SegReg
  length : Nat
  deriving DecidableEq, Repr

namespace Instruction

def bare (op : Op) (operands : List Operand) (length : Nat) : Instruction :=
  ⟨op, operands, none, false, none, length⟩

def repeatText (i : Instruction) : String :=
  match i.repeated with
  | none => ""
  | some .rep => if i.op.isCompare then "repe " else "rep "
  | some .repne => "repne "

/-- A segment override shows in front unless a memory operand shows it. -/
def overrideText (i : Instruction) : String :=
  match i.override with
  | none => ""
  | some s => if i.operands.any Operand.isMemory then "" else s.name ++ " "

def operandText (i : Instruction) : String :=
  let list := ", ".intercalate (i.operands.map Operand.text)
  match i.op with
  | .esc n => " " ++ toString n ++ (if i.operands.isEmpty then "" else ", " ++ list)
  | _ => if i.operands.isEmpty then "" else " " ++ list

def text (i : Instruction) : String :=
  (if i.lock then "lock " else "") ++ i.repeatText ++ i.overrideText ++ i.op.mnemonic ++
    i.operandText

end Instruction
end RealMode
