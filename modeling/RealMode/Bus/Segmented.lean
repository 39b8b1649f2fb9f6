import RealMode.Bus

/-! # Access by segment and offset

Offsets wrap inside the segment.
-/
namespace RealMode.Bus

variable {M : Type} [Bus M]

def getByte (m : M) (segment offset : UInt16) : UInt8 := read m (physical segment offset)

def setByte (m : M) (segment offset : UInt16) (v : UInt8) : M :=
  write m (physical segment offset) v

def getWord (m : M) (segment offset : UInt16) : UInt16 :=
  wordOf (getByte m segment offset) (getByte m segment (offset + 1))

def setWord (m : M) (segment offset v : UInt16) : M :=
  setByte (setByte m segment offset (lowByte v)) segment (offset + 1) (highByte v)

def getBytes (m : M) (segment offset : UInt16) (count : Nat) : ByteArray :=
  tabulate count fun i => getByte m segment (offset + UInt16.ofNat i)

def setBytes (m : M) (segment offset : UInt16) (data : ByteArray) : M :=
  if wrapsSegment offset data.size then
    writeEach write (fun i => physical segment (offset + UInt16.ofNat i)) data m
  else
    writeBlock m (physical segment offset) data

def fill (m : M) (segment offset : UInt16) (count : Nat) (v : UInt8) : M :=
  count.fold (fun i _ m => setByte m segment (offset + UInt16.ofNat i) v) m

def copyEach (m : M) (srcSegment srcOffset dstSegment dstOffset : UInt16) (count : Nat)
    (d : Direction) : M :=
  count.fold (fun i _ m =>
    setByte m dstSegment (d.offset dstOffset 1 i) (getByte m srcSegment (d.offset srcOffset 1 i))) m

/-- Whether a forward copy of `count` bytes may go as a block: neither range wraps, and the
destination does not start inside the source. -/
def copiesAsBlock (srcSegment srcOffset dstSegment dstOffset : UInt16) (count : Nat) : Bool :=
  let src := physical srcSegment srcOffset
  let dst := physical dstSegment dstOffset
  !wrapsSegment srcOffset count && !wrapsSegment dstOffset count &&
    src + count ≤ memorySize && dst + count ≤ memorySize && (dst ≤ src || src + count ≤ dst)

/-- Copies `count` bytes as if one after the other, so that overlapping ranges replicate. -/
def copy (m : M) (srcSegment srcOffset dstSegment dstOffset : UInt16) (count : Nat)
    (d : Direction) : M :=
  if d = .forward && copiesAsBlock srcSegment srcOffset dstSegment dstOffset count then
    writeBlock m (physical dstSegment dstOffset)
      (readBlock m (physical srcSegment srcOffset) count)
  else
    copyEach m srcSegment srcOffset dstSegment dstOffset count d

end RealMode.Bus
