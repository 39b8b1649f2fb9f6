import RealMode.Json
import RealMode.Model

/-! # Machine settings -/
namespace RealMode.Pc

structure Config where
  model : Model
  memoryKb : UInt16
  loadSegment : UInt16
  echo : Bool
  stepLimit : Option Nat
  deriving DecidableEq, Repr

namespace Config

def standard : Config := ⟨.i8086, 640, 0x0700, false, none⟩

def clamped (c : Config) : Config :=
  { c with memoryKb := UInt16.ofNat (max 64 (min 640 c.memoryKb.toNat)) }

def toJson (c : Config) : Json :=
  .object
    [("cpu_model", .string c.model.key), ("echo_console", .bool c.echo),
      ("load_segment", .ofNat c.loadSegment.toNat), ("max_steps", .ofOption .ofNat c.stepLimit),
      ("memory_kb", .ofNat c.memoryKb.toNat)]

def names : List String := ["cpu_model", "memory_kb", "load_segment", "echo_console", "max_steps"]

def model? (j : Json) : Option Model := j.name? >>= Model.ofKey?

def stepLimit? : Json → Option (Option Nat)
  | .null => some none
  | j => j.count?.map some

def assign (c : Config) (name : String) (j : Json) : Option Config :=
  match name with
  | "cpu_model" => (model? j).map fun v => { c with model := v }
  | "memory_kb" => j.word?.map fun v => { c with memoryKb := v }
  | "load_segment" => j.word?.map fun v => { c with loadSegment := v }
  | "echo_console" => j.bool?.map fun v => { c with echo := v }
  | "max_steps" => (stepLimit? j).map fun v => { c with stepLimit := v }
  | _ => some c

def assignAll (c : Config) (members : List (String × Json)) : Option Config :=
  members.foldlM (fun c m => c.assign m.1 m.2) c

/-- Reads settings by name or in order; those left out have their standard values. -/
def ofJson? : Json → Option Config
  | .object members => standard.assignAll members
  | .array items => if items.length ≤ 5 then standard.assignAll (names.zip items) else none
  | _ => none

end Config
end RealMode.Pc
