import RealMode.Pc.Machine

/-! # Save states -/
namespace RealMode.Pc

structure RegisterImage where
  regs : Registers
  flags : UInt16
  deriving DecidableEq, Repr

namespace RegisterImage

def names : List String :=
  ["ax", "bx", "cx", "dx", "si", "di", "bp", "sp", "cs", "ds", "es", "ss", "ip", "flags"]

def ofValues? : List UInt16 → Option RegisterImage
  | [ax, bx, cx, dx, si, di, bp, sp, cs, ds, es, ss, ip, flags] =>
    some ⟨⟨ax, cx, dx, bx, sp, bp, si, di, es, cs, ss, ds, ip⟩, flags⟩
  | _ => none

def toJson (i : RegisterImage) : Json :=
  let r := i.regs
  .object ([("ax", r.ax), ("bp", r.bp), ("bx", r.bx), ("cs", r.cs), ("cx", r.cx), ("di", r.di),
    ("ds", r.ds), ("dx", r.dx), ("es", r.es), ("flags", i.flags), ("ip", r.ip), ("si", r.si),
    ("sp", r.sp), ("ss", r.ss)].map fun (name, v) => (name, .ofNat v.toNat))

def ofJson? (j : Json) : Option RegisterImage :=
  match j with
  | .object _ => names.mapM (fun name => j.get? name >>= Json.word?) >>= ofValues?
  | .array items => items.mapM Json.word? >>= ofValues?
  | _ => none

end RegisterImage

namespace Machine

variable {H : Type}

def saveStateVersion : Nat := 1

def saveState (m : Machine H) : Json :=
  .object
    [("cpu_model", .string m.cpu.model.key), ("halted", .bool m.cpu.halted),
      ("registers", (RegisterImage.mk m.cpu.regs m.cpu.flags.word).toJson),
      ("steps", .ofNat m.cpu.counter), ("system", .string "pc"),
      ("version", .ofNat saveStateVersion)]

def restoreRegisters (m : Machine H) (i : RegisterImage) : Machine H :=
  m.onCpu fun c => { c with regs := i.regs, flags := c.flags.setWord i.flags }

/-- Takes a part of a state that has to read if it is there. -/
def restorePart {α : Type} (state : Json) (name : String) (read : Json → Option α)
    (store : Machine H → α → Machine H) : Action H Unit :=
  match state.get? name with
  | none => pure ()
  | some part =>
    match read part with
    | none => throw .unreadableState
    | some a => modify fun m => store m a

/-- Restores what a state holds. Registers and model have to read; a step count or halted flag
that does not is passed over. On failure what came before stays. -/
def loadState (state : Json) : Action H Unit := do
  restorePart state "registers" RegisterImage.ofJson? restoreRegisters
  restorePart state "cpu_model" Config.model? setModel
  if let some steps := state.get? "steps" >>= Json.count? then
    modify (·.onCpu fun c => { c with steps := steps })
  if let some halted := state.get? "halted" >>= Json.bool? then
    modify (·.onCpu fun c => { c with halted := halted })

end Machine
end RealMode.Pc
