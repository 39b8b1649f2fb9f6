import RealMode.Text.Hex

/-! # JSON values

A number is an integer divided by a power of ten, so that 5 and 5.0 differ.
-/
namespace RealMode

inductive Json where
  | null
  | bool (b : Bool)
  | number (mantissa : Int) (scale : Nat)
  | string (s : String)
  | array (items : List Json)
  | object (members : List (String × Json))
  deriving Repr

namespace Json

def ofNat (n : Nat) : Json := number n 0

def ofOption {α : Type} (f : α → Json) : Option α → Json
  | none => null
  | some a => f a

def get? (j : Json) (key : String) : Option Json :=
  match j with
  | object members => members.lookup key
  | _ => none

def bool? : Json → Option Bool
  | bool b => some b
  | _ => none

def below? (limit : Nat) : Json → Option Nat
  | number m 0 => if 0 ≤ m ∧ m.toNat < limit then some m.toNat else none
  | _ => none

def word? (j : Json) : Option UInt16 := (j.below? 0x10000).map UInt16.ofNat

def count? (j : Json) : Option Nat := j.below? 0x10000000000000000

/-- A name, as a string or as the only key of an object, with null behind it. -/
def name? : Json → Option String
  | string s => some s
  | object [(s, null)] => some s
  | _ => none

/-- A decimal with `scale` digits behind the point. -/
def numberText (mantissa : Int) (scale : Nat) : String :=
  let sign := if mantissa < 0 then "-" else ""
  if scale = 0 then sign ++ toString mantissa.natAbs
  else
    let digits := (toString mantissa.natAbs).toList
    let padded := List.replicate (scale + 1 - digits.length) '0' ++ digits
    let point := padded.length - scale
    sign ++ String.ofList (padded.take point) ++ "." ++ String.ofList (padded.drop point)

def escaped (c : Char) : String :=
  match c with
  | '"' => "\\\""
  | '\\' => "\\\\"
  | '\n' => "\\n"
  | '\r' => "\\r"
  | '\t' => "\\t"
  | '\x08' => "\\b"
  | '\x0c' => "\\f"
  | c => if c.toNat < 0x20 then "\\u" ++ Text.hex 4 c.toNat else c.toString

def quoted (s : String) : String := "\"" ++ String.join (s.toList.map escaped) ++ "\""

def indent (depth : Nat) : String := "\n" ++ String.ofList (List.replicate (2 * depth) ' ')

def block (opening closing : String) (depth : Nat) (elements : List String) : String :=
  if elements.isEmpty then opening ++ closing
  else
    opening ++ ",".intercalate (elements.map (indent (depth + 1) ++ ·)) ++ indent depth ++ closing

mutual

def prettyFrom (depth : Nat) : Json → String
  | null => "null"
  | bool b => if b then "true" else "false"
  | number m s => numberText m s
  | string s => quoted s
  | array items => block "[" "]" depth (prettyItems (depth + 1) items)
  | object members => block "\x7b" "\x7d" depth (prettyMembers (depth + 1) members)

def prettyItems (depth : Nat) : List Json → List String
  | [] => []
  | j :: rest => prettyFrom depth j :: prettyItems depth rest

def prettyMembers (depth : Nat) : List (String × Json) → List String
  | [] => []
  | (key, j) :: rest => (quoted key ++ ": " ++ prettyFrom depth j) :: prettyMembers depth rest

end

def pretty (j : Json) : String := prettyFrom 0 j

end Json
end RealMode
