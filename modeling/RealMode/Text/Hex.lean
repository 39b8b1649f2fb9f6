/-! # Hexadecimal and padded text -/
namespace RealMode.Text

/-- At least `width` lower-case hexadecimal digits, zeros in front. -/
def hex (width n : Nat) : String :=
  let digits := Nat.toDigits 16 n
  String.ofList (List.replicate (width - digits.length) '0' ++ digits)

def upperHex (width n : Nat) : String := (hex width n).map Char.toUpper

def padRight (width : Nat) (s : String) : String :=
  s ++ String.ofList (List.replicate (width - s.length) ' ')

end RealMode.Text
