/-! # White space and letter case in names that users type -/
namespace RealMode.Text

/-- The characters with the Unicode property White_Space. -/
def isBlank (c : Char) : Bool :=
  let n := c.toNat
  (0x09 ≤ n && n ≤ 0x0D) || n == 0x20 || n == 0x85 || n == 0xA0 || n == 0x1680 ||
    (0x2000 ≤ n && n ≤ 0x200A) || n == 0x2028 || n == 0x2029 || n == 0x202F ||
    n == 0x205F || n == 0x3000

def trimStart (cs : List Char) : List Char := cs.dropWhile isBlank

def trimEnd (cs : List Char) : List Char := (cs.reverse.dropWhile isBlank).reverse

def trim (cs : List Char) : List Char := trimEnd (trimStart cs)

def stripLeading (word cs : List Char) : List Char :=
  if h : word ≠ [] ∧ word.isPrefixOf cs then
    have : cs.length - word.length < cs.length := by
      have hw := List.length_pos_iff.mpr h.1
      have hp := (List.isPrefixOf_iff_prefix.mp h.2).length_le
      omega
    stripLeading word (cs.drop word.length)
  else cs
termination_by cs.length

end RealMode.Text
