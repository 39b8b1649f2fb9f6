/-! # The journal

The text of a message that is not wanted is never computed.
-/
namespace RealMode

inductive Level where
  | off
  | error
  | warn
  | info
  | debug
  | trace
  deriving DecidableEq, Repr

namespace Level

def all : List Level := [off, error, warn, info, debug, trace]

def rank : Level → Nat
  | off => 0
  | error => 1
  | warn => 2
  | info => 3
  | debug => 4
  | trace => 5

def name : Level → String
  | off => "Off"
  | error => "Error"
  | warn => "Warn"
  | info => "Info"
  | debug => "Debug"
  | trace => "Trace"

def ofName? (s : String) : Option Level :=
  match s.map Char.toLower with
  | "off" | "0" => some off
  | "error" | "err" | "1" => some error
  | "warn" | "warning" | "2" => some warn
  | "info" | "3" => some info
  | "debug" | "4" => some debug
  | "trace" | "5" => some trace
  | _ => none

end Level

inductive Category where
  | cpu
  | decoder
  | memory
  | interrupts
  | bios
  | stubs
  deriving DecidableEq, Repr

def Category.ofName? : String → Option Category
  | "CPU" => some cpu
  | "Decoder" => some decoder
  | "Memory" => some memory
  | "Interrupts" => some interrupts
  | "Bios" => some bios
  | "Stubs" => some stubs
  | _ => none

structure Note where
  category : Category
  level : Level
  text : Unit → String

structure Journal where
  globalLevel : Level
  levels : Category → Level
  /-- Messages of one category that a writer of the entries lets through in a second. -/
  rate : Nat
  entries : Array String

namespace Journal

def silent : Journal := ⟨.off, fun _ => .off, 60, #[]⟩

def setLevel (j : Journal) (c : Category) (l : Level) : Journal :=
  { j with levels := fun d => if d = c then l else j.levels d }

def reset (j : Journal) : Journal :=
  { j with globalLevel := .off, levels := fun _ => .off }

def wants (j : Journal) (c : Category) (l : Level) : Bool :=
  let own := j.levels c
  if own = .off then l.rank ≤ j.globalLevel.rank else l.rank ≤ own.rank

def add (j : Journal) (n : Note) : Journal :=
  if j.wants n.category n.level then { j with entries := j.entries.push (n.text ()) } else j

def addAll (j : Journal) (ns : List Note) : Journal := ns.foldl add j

def text (j : Journal) : String := String.join (j.entries.toList.map (· ++ "\n"))

end Journal
end RealMode
