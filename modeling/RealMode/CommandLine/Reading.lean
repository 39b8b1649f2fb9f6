/-! # Arguments

The value of an option that stands in the next word is checked only when the word after it has
been looked at, so that of two faults the one found first counts.
-/
namespace RealMode.CommandLine

inductive UsageError where
  | unknownArgument
  | unknownCommand
  | invalidNumber
  | missingValue
  | unexpectedValue
  | repeated
  | missingArgument
  | missingCommand
  | help
  | helpForNothing
  | version
  deriving DecidableEq, Repr

inductive ValueKind where
  | text
  /-- The name of a file, which is never empty. -/
  | path
  /-- A number below a limit. Where a sign is read, minus zero is zero. -/
  | number (limit : Nat) (signed : Bool)
  | switch
  | help
  | version
  deriving DecidableEq, Repr

structure Parameter where
  name : String
  kind : ValueKind
  deriving DecidableEq, Repr

/-- What may stand on one level of a command line. -/
structure Grammar where
  options : List Parameter
  letters : List (Char × Parameter)
  positional : Option Parameter
  commands : List String

structure Reading where
  given : List (Parameter × String)
  /-- The last argument, if its value is missing or has not been checked. -/
  waiting : Option (Parameter × Option String)
  placed : Bool
  deriving DecidableEq, Repr

inductive Word where
  | escape
  | long (name : List Char) (value : Option (List Char))
  | short (letter : Char)
  | plain
  deriving DecidableEq, Repr

def splitValue (cs : List Char) : List Char × Option (List Char) :=
  let name := cs.takeWhile (· ≠ '=')
  (name, if name.length < cs.length then some (cs.drop (name.length + 1)) else none)

def Word.ofChars : List Char → Word
  | ['-', '-'] => .escape
  | '-' :: '-' :: cs =>
    let (name, value) := splitValue cs
    .long name value
  | '-' :: c :: _ => .short c
  | _ => .plain

def digits? (cs : List Char) : Option Nat :=
  if cs.isEmpty then none
  else cs.foldlM (fun n c => if c.isDigit then some (n * 10 + (c.toNat - '0'.toNat)) else none) 0

def number? (limit : Nat) (signed : Bool) (cs : List Char) : Option Nat :=
  let value := match cs with
    | '+' :: cs => digits? cs
    | '-' :: cs => if signed then (digits? cs).filter (· = 0) else none
    | cs => digits? cs
  value.filter (· < limit)

namespace Reading

def start : Reading := ⟨[], none, false⟩

def get? (r : Reading) (name : String) : Option String :=
  (r.given.find? (·.1.name = name)).map (·.2)

def has (r : Reading) (p : Parameter) : Bool := r.given.any (·.1.name = p.name)

def accept (r : Reading) (p : Parameter) (value : String) : Except UsageError Reading :=
  let taken : Reading := { r with given := r.given ++ [(p, value)] }
  match p.kind with
  | .help => .error .help
  | .version => .error .version
  | .text | .switch => if r.has p then .error .repeated else .ok taken
  | .path =>
    if r.has p then .error .repeated
    else if value.isEmpty then .error .missingValue
    else .ok taken
  | .number limit signed =>
    if r.has p then .error .repeated
    else if (number? limit signed value.toList).isNone then .error .invalidNumber
    else .ok taken

def settle (r : Reading) : Except UsageError Reading :=
  match r.waiting with
  | none => .ok r
  | some (_, none) => .error .missingValue
  | some (p, some value) => accept { r with waiting := none } p value

def expectsValue (r : Reading) : Bool :=
  match r.waiting with
  | some (_, none) => true
  | _ => false

def supply (r : Reading) (value : String) : Reading :=
  { r with waiting := r.waiting.map fun w => (w.1, some value) }

def option (r : Reading) (p : Parameter) (attached : Option String) :
    Except UsageError Reading := do
  match p.kind, attached with
  | .text, none | .path, none | .number _ _, none =>
    let r ← r.settle
    return { r with waiting := some (p, none) }
  | .text, some value | .path, some value | .number _ _, some value => (← r.settle).accept p value
  | _, some _ => throw .unexpectedValue
  | _, none => (← r.settle).accept p ""

def place (g : Grammar) (r : Reading) (escaped : Bool) (word : String) :
    Except UsageError Reading := do
  match g.positional with
  | some p =>
    if r.placed then throw .unknownArgument
    let r ← r.settle
    return { r with waiting := some (p, some word), placed := true }
  | none =>
    if g.commands.isEmpty || (escaped && g.commands.contains word) then throw .unknownArgument
    throw .unknownCommand

def long (g : Grammar) (r : Reading) (name : List Char) (value : Option (List Char)) :
    Except UsageError Reading :=
  match g.options.find? (·.name.toList = name) with
  | some p => r.option p (value.map String.ofList)
  | none => .error .unknownArgument

def short (g : Grammar) (r : Reading) (letter : Char) : Except UsageError Reading :=
  match g.letters.lookup letter with
  | some p => r.option p none
  | none => .error .unknownArgument

end Reading

/-- Reads words up to a command or to the end; the command comes with the words behind it. Once
a double dash has been read, all words are arguments without a name. -/
def scan (g : Grammar) (r : Reading) (escaped : Bool) :
    List String → Except UsageError (Reading × Option (String × List String))
  | [] => .ok (r, none)
  | word :: rest =>
    if escaped then do scan g (← r.place g true word) true rest
    else if !r.expectsValue && g.commands.contains word then .ok (r, some (word, rest))
    else match Word.ofChars word.toList with
      | .escape => scan g r true rest
      | .long name value => do scan g (← r.long g name value) false rest
      | .short letter => do scan g (← r.short g letter) false rest
      | .plain =>
        if r.expectsValue then scan g (r.supply word) false rest
        else do scan g (← r.place g false word) false rest

end RealMode.CommandLine
