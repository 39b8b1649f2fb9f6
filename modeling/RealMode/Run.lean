import RealMode.Execute

/-! # Running -/
namespace RealMode

inductive StopReason where
  | halted
  | stepLimit
  deriving DecidableEq, Repr

structure RunSummary where
  steps : Nat
  reason : StopReason
  deriving DecidableEq, Repr

def StopReason.name : StopReason → String
  | halted => "Halted"
  | stepLimit => "StepLimit"

/-- Where to start, with what in the registers, and how far to go. -/
structure ExecutionContext where
  cs : UInt16
  ip : UInt16
  ds : UInt16
  ss : Option UInt16
  es : Option UInt16
  sp : Option UInt16
  args : List (Reg16 × UInt16)
  limit : Option Nat
  deriving DecidableEq, Repr

structure ListedInstruction where
  address : Nat
  bytes : ByteArray
  instruction : Instruction

namespace Cpu

variable {M H : Type} [Bus M]

def decodeNext : Exec M H Instruction :=
  modifyGet fun c =>
    let d := c.decoded
    let ns := d.notes c.regs.cs c.regs.ip
    (d.instruction, c.noteAll ns)

def stepText (r : Registers) (f : Flags) (i : Instruction) : String :=
  Text.upperHex 4 r.cs.toNat ++ ":" ++ Text.upperHex 4 r.ip.toNat ++ " " ++
    Text.padRight 28 i.text ++ " AX=" ++ Text.upperHex 4 r.ax.toNat ++
    " BX=" ++ Text.upperHex 4 r.bx.toNat ++ " CX=" ++ Text.upperHex 4 r.cx.toNat ++
    " DX=" ++ Text.upperHex 4 r.dx.toNat ++ " SP=" ++ Text.upperHex 4 r.sp.toNat ++
    " [" ++ f.letters ++ "]"

def fetched (c : Cpu M H) (i : Instruction) : Cpu M H :=
  { c with
    regs := { c.regs with ip := c.regs.ip + UInt16.ofNat i.length }
    steps := c.steps + 1 }

def step [HostService M H] : Exec M H Unit := do
  unless (← get).halted do
    let i ← decodeNext
    modify fun c =>
      let r := c.regs
      let f := c.flags
      (c.note .cpu .trace fun _ => stepText r f i).fetched i
    i.execute

/-- Steps until the processor halts or the counter is `limit` past `start`. -/
def runFrom [HostService M H] (start : Nat) (limit : Option Nat) : Nat → Exec M H RunSummary
  | 0 => do return ⟨(← get).steps - start, .stepLimit⟩
  | fuel + 1 => do
    let c ← get
    let taken := c.steps - start
    if c.halted then return ⟨taken, .halted⟩
    else if limit.any (· ≤ taken) then return ⟨taken, .stepLimit⟩
    else
      step
      runFrom start limit fuel

/-- More instructions than any run executes. -/
def unlimited : Nat := 0x10000000000000000

def run [HostService M H] (limit : Option Nat) : Exec M H RunSummary := do
  runFrom (← get).steps limit (limit.getD unlimited + 1)

def enterContext (c : Cpu M H) (x : ExecutionContext) : Cpu M H :=
  let r := { c.regs with
    cs := x.cs
    ip := x.ip
    ds := x.ds
    ss := x.ss.getD x.ds
    es := x.es.getD x.ds
    sp := x.sp.getD c.regs.sp }
  let c := { c with regs := x.args.foldl (fun r (reg, v) => r.set reg v) r, halted := false }
  c.note .cpu .info fun _ =>
    "execute from " ++ Text.upperHex 4 x.cs.toNat ++ ":" ++ Text.upperHex 4 x.ip.toNat ++
      " (DS=" ++ Text.upperHex 4 x.ds.toNat ++ ")"

def execute [HostService M H] (x : ExecutionContext) : Exec M H RunSummary := do
  modify (·.enterContext x)
  run x.limit

def listFrom (c : Cpu M H) : Nat → UInt16 → Array (Decoded × UInt16) → Array (Decoded × UInt16)
  | 0, _, out => out
  | count + 1, ip, out =>
    let d := decodeAt c.memory c.regs c.model c.regs.cs ip
    c.listFrom count (ip + UInt16.ofNat d.instruction.length) (out.push (d, ip))

def listed (c : Cpu M H) (d : Decoded) (ip : UInt16) : ListedInstruction :=
  ⟨physical c.regs.cs ip, Bus.getBytes c.memory c.regs.cs ip d.instruction.length,
    d.instruction⟩

/-- Lists `count` instructions from CS:IP on. Room for all entries is taken before any of them is
decoded; the host has room for `capacity` of them, and for more there is no answer. -/
def disassemble (capacity count : Nat) : Exec M H (Option (List ListedInstruction)) :=
  modifyGet fun c =>
    if capacity < count then (none, c)
    else
      let entries := (c.listFrom count c.regs.ip #[]).toList
      (some (entries.map fun (d, ip) => c.listed d ip),
        c.noteAll (entries.flatMap fun (d, ip) => d.notes c.regs.cs ip))

end Cpu
end RealMode
