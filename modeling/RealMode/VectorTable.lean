import RealMode.Bus.Segmented

/-! # The interrupt vector table -/
namespace RealMode

/-- Where every vector points after a reset: a single IRET. -/
def defaultSegment : UInt16 := 0xF000

def defaultOffset : UInt16 := 0xFF53

def iretOpcode : UInt8 := 0xCF

def vectorOffset (vector : UInt8) : UInt16 := UInt16.ofNat (vector.toNat * 4)

structure FarPointer where
  segment : UInt16
  offset : UInt16
  deriving DecidableEq, Repr

variable {M : Type} [Bus M]

def readVector (m : M) (vector : UInt8) : FarPointer :=
  let entry := vectorOffset vector
  ⟨Bus.getWord m 0 (entry + 2), Bus.getWord m 0 entry⟩

def writeVector (m : M) (vector : UInt8) (p : FarPointer) : M :=
  let entry := vectorOffset vector
  Bus.setWord (Bus.setWord m 0 entry p.offset) 0 (entry + 2) p.segment

def installVectors (m : M) : M :=
  (List.range 256).foldl
    (fun m v => writeVector m (UInt8.ofNat v) ⟨defaultSegment, defaultOffset⟩)
    (Bus.setByte m defaultSegment defaultOffset iretOpcode)

end RealMode
