import RealMode.Word

/-! # Physical addresses

A segment and an offset name one of 2^20 bytes; the sum wraps at the top.
-/
namespace RealMode

def memorySize : Nat := 0x100000

def physical (segment offset : UInt16) : Nat :=
  (segment.toNat * 16 + offset.toNat) % memorySize

def wrapsSegment (offset : UInt16) (count : Nat) : Bool := 0x10000 < offset.toNat + count

theorem physical_lt (segment offset : UInt16) : physical segment offset < memorySize :=
  Nat.mod_lt _ (by decide)

/-- The order in which a string operation walks its elements. -/
inductive Direction where
  | forward
  | backward
  deriving DecidableEq, Repr

namespace Direction

def step (d : Direction) (size : Nat) : Int :=
  match d with
  | forward => size
  | backward => -size

/-- The offset of element `i`, elements being `size` bytes apart. -/
def offset (d : Direction) (start : UInt16) (size i : Nat) : UInt16 :=
  UInt16.ofInt (start.toNat + d.step size * i)

theorem toNat_offset_forward (start : UInt16) (size i : Nat) :
    (forward.offset start size i).toNat = (start.toNat + size * i) % 0x10000 := by
  simp only [offset, step, toNat_ofInt]
  omega

theorem add_ofNat (start : UInt16) (i : Nat) :
    start + UInt16.ofNat i = forward.offset start 1 i := by
  apply UInt16.toNat_inj.mp
  simp only [UInt16.toNat_add, UInt16.toNat_ofNat', toNat_offset_forward]
  omega

theorem sub_add_ofNat (start : UInt16) {n i : Nat} (h : i < n) :
    start - UInt16.ofNat (n - 1) + UInt16.ofNat i = backward.offset start 1 (n - 1 - i) := by
  apply UInt16.toNat_inj.mp
  simp only [UInt16.toNat_add, UInt16.toNat_sub, UInt16.toNat_ofNat', offset, step, toNat_ofInt]
  omega

end Direction
end RealMode
