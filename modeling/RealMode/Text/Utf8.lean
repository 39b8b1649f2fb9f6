/-! # Bytes read as UTF-8

Every maximal part of a character that no text continues becomes one replacement character.
-/
namespace RealMode.Text.Utf8

/-- A character that is not complete yet. -/
structure Pending where
  owed : Nat
  least : Nat
  greatest : Nat
  bits : Nat
  deriving DecidableEq, Repr

structure Decoder where
  pending : Option Pending
  out : String

def replacement : Char := Char.ofNat 0xFFFD

/-- What a first byte announces, if it opens a character of several bytes. The bounds leave
out overlong forms, surrogates and all that lies beyond the last code point. -/
def Pending.ofLead? (b : Nat) : Option Pending :=
  if 0xC2 ≤ b ∧ b ≤ 0xDF then some ⟨1, 0x80, 0xBF, b % 0x20⟩
  else if b = 0xE0 then some ⟨2, 0xA0, 0xBF, 0⟩
  else if b = 0xED then some ⟨2, 0x80, 0x9F, 0xD⟩
  else if 0xE1 ≤ b ∧ b ≤ 0xEF then some ⟨2, 0x80, 0xBF, b % 0x10⟩
  else if b = 0xF0 then some ⟨3, 0x90, 0xBF, 0⟩
  else if b = 0xF4 then some ⟨3, 0x80, 0x8F, 4⟩
  else if 0xF1 ≤ b ∧ b ≤ 0xF3 then some ⟨3, 0x80, 0xBF, b % 8⟩
  else none

def Decoder.start (out : String) (b : Nat) : Decoder :=
  if b < 0x80 then ⟨none, out.push (Char.ofNat b)⟩
  else match Pending.ofLead? b with
    | some p => ⟨some p, out⟩
    | none => ⟨none, out.push replacement⟩

def Decoder.push (d : Decoder) (byte : UInt8) : Decoder :=
  let b := byte.toNat
  match d.pending with
  | none => start d.out b
  | some p =>
    if p.least ≤ b ∧ b ≤ p.greatest then
      let bits := p.bits * 0x40 + b % 0x40
      if p.owed ≤ 1 then ⟨none, d.out.push (Char.ofNat bits)⟩
      else ⟨some ⟨p.owed - 1, 0x80, 0xBF, bits⟩, d.out⟩
    else start (d.out.push replacement) b

def Decoder.finish (d : Decoder) : String :=
  if d.pending.isSome then d.out.push replacement else d.out

def decode (bs : ByteArray) : String := (bs.foldl Decoder.push ⟨none, ""⟩).finish

end RealMode.Text.Utf8
