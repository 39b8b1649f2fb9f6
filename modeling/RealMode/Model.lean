import RealMode.Text.Blank

/-! # Processor models -/
namespace RealMode

inductive Model where
  | i8086
  | i8088
  | i80186
  | i80188
  deriving DecidableEq, Repr

namespace Model

def all : List Model := [i8086, i8088, i80186, i80188]

def extended : Model → Bool
  | i8086 | i8088 => false
  | i80186 | i80188 => true

def name : Model → String
  | i8086 => "Intel 8086"
  | i8088 => "Intel 8088"
  | i80186 => "Intel 80186"
  | i80188 => "Intel 80188"

def key : Model → String
  | i8086 => "Intel8086"
  | i8088 => "Intel8088"
  | i80186 => "Intel80186"
  | i80188 => "Intel80188"

def ofName? (s : String) : Option Model :=
  let lowered := (Text.trim s.toList).map Char.toLower
  match String.ofList (Text.trim (Text.stripLeading "intel".toList lowered)) with
  | "8086" => some i8086
  | "8088" => some i8088
  | "80186" | "186" => some i80186
  | "80188" | "188" => some i80188
  | _ => none

def ofKey? (s : String) : Option Model := all.find? (·.key == s)

end Model
end RealMode
