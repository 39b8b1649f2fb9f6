/-! # Condition codes -/
namespace RealMode

inductive Condition where
  | o
  | no
  | b
  | ae
  | e
  | ne
  | be
  | a
  | s
  | ns
  | p
  | np
  | l
  | ge
  | le
  | g
  deriving DecidableEq, Repr

namespace Condition

def all : List Condition := [o, no, b, ae, e, ne, be, a, s, ns, p, np, l, ge, le, g]

def ofIndex (i : Nat) : Condition := all.getD (i % 16) g

def name : Condition → String
  | o => "o"
  | no => "no"
  | b => "b"
  | ae => "ae"
  | e => "e"
  | ne => "ne"
  | be => "be"
  | a => "a"
  | s => "s"
  | ns => "ns"
  | p => "p"
  | np => "np"
  | l => "l"
  | ge => "ge"
  | le => "le"
  | g => "g"

end Condition
end RealMode
