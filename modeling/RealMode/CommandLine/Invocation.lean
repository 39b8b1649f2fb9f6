import RealMode.CommandLine.Reading

/-! # Invocations -/
namespace RealMode.CommandLine

structure JournalRequest where
  level : Option String
  cpu : Option String
  interrupts : Option String
  file : Option String
  rate : Option Nat
  deriving DecidableEq, Repr

structure RunRequest where
  file : String
  cpu : String
  memoryKb : Nat
  stepLimit : Option Nat
  input : Option String
  tail : String
  dump : Option String
  echo : Bool
  /-- Print the screen and not the transcript. -/
  screen : Bool
  deriving DecidableEq, Repr

structure ListRequest where
  file : String
  cpu : String
  count : Nat
  deriving DecidableEq, Repr

inductive Command where
  | run (r : RunRequest)
  | list (r : ListRequest)
  deriving DecidableEq, Repr

def Command.file : Command → String
  | run r => r.file
  | list r => r.file

structure Invocation where
  journal : JournalRequest
  command : Command
  deriving DecidableEq, Repr

def helpOption : Parameter := ⟨"help", .help⟩

def versionOption : Parameter := ⟨"version", .version⟩

/-- Counts have 64 binary digits. -/
def countLimit : Nat := 0x10000000000000000

def commonOptions : List Parameter :=
  [⟨"log-level", .text⟩, ⟨"log-cpu", .text⟩, ⟨"log-interrupts", .text⟩, ⟨"log-file", .path⟩,
    ⟨"log-rate", .number countLimit false⟩, helpOption]

def fileParameter : Parameter := ⟨"file", .path⟩

def runName : String := "run"

def listName : String := "disasm"

def helpName : String := "help"

def commandNames : List String := [runName, listName, helpName]

def outerGrammar : Grammar :=
  { options := versionOption :: commonOptions
    letters := [('h', helpOption), ('V', versionOption)]
    positional := none
    commands := commandNames }

def runGrammar : Grammar :=
  { options := [⟨"cpu", .text⟩, ⟨"memory", .number 0x10000 true⟩,
      ⟨"max-steps", .number countLimit false⟩, ⟨"input", .text⟩, ⟨"tail", .text⟩,
      ⟨"dump-state", .path⟩, ⟨"echo", .switch⟩, ⟨"screen", .switch⟩] ++ commonOptions
    letters := [('h', helpOption)]
    positional := some fileParameter
    commands := [] }

def listGrammar : Grammar :=
  { options := [⟨"cpu", .text⟩, ⟨"count", .number countLimit false⟩] ++ commonOptions
    letters := [('h', helpOption)]
    positional := some fileParameter
    commands := [] }

def readInner (g : Grammar) (words : List String) : Except UsageError (Reading × String) := do
  let (r, _) ← scan g .start false words
  let r ← r.settle
  match r.get? fileParameter.name with
  | some file => return (r, file)
  | none => throw .missingArgument

/-- The value of a numeric option, which has been checked when it was read. -/
def Reading.number? (r : Reading) (name : String) : Option Nat :=
  r.get? name >>= fun s => CommandLine.number? countLimit true s.toList

def defaultModel : String := "8086"

def runRequest (r : Reading) (file : String) : RunRequest :=
  { file := file
    cpu := (r.get? "cpu").getD defaultModel
    memoryKb := (r.number? "memory").getD 640
    stepLimit := r.number? "max-steps"
    input := r.get? "input"
    tail := (r.get? "tail").getD ""
    dump := r.get? "dump-state"
    echo := (r.get? "echo").isSome
    screen := (r.get? "screen").isSome }

def listRequest (r : Reading) (file : String) : ListRequest :=
  { file := file
    cpu := (r.get? "cpu").getD defaultModel
    count := (r.number? "count").getD 64 }

def journalRequest (outer inner : Reading) : JournalRequest :=
  let text (name : String) : Option String := inner.get? name <|> outer.get? name
  { level := text "log-level"
    cpu := text "log-cpu"
    interrupts := text "log-interrupts"
    file := text "log-file"
    rate := inner.number? "log-rate" <|> outer.number? "log-rate" }

def helpAnswer : List String → UsageError
  | [] => .help
  | [name] => if commandNames.contains name then .help else .unknownCommand
  | _ => .unknownCommand

def parse (words : List String) : Except UsageError Invocation := do
  match ← scan outerGrammar .start false words with
  | (outer, none) =>
    let outer ← outer.settle
    throw (if outer.given.isEmpty then .helpForNothing else .missingCommand)
  | (outer, some (name, rest)) =>
    if name = helpName then throw (helpAnswer rest)
    else if name = runName then
      let (inner, file) ← readInner runGrammar rest
      let outer ← outer.settle
      return ⟨journalRequest outer inner, .run (runRequest inner file)⟩
    else
      let (inner, file) ← readInner listGrammar rest
      let outer ← outer.settle
      return ⟨journalRequest outer inner, .list (listRequest inner file)⟩

end RealMode.CommandLine
