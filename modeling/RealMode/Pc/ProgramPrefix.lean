import RealMode.VectorTable
import RealMode.Pc.Board

/-! # The program segment prefix -/
namespace RealMode.Pc

def prefixSize : Nat := 0x100

/-- The longest command tail; one byte is left for the carriage return behind it. -/
def tailLimit : Nat := 126

def tailBytes (tail : String) : ByteArray := tail.toUTF8.extract 0 tailLimit

def saveVector (segment : UInt16) (b : Board) (slot : UInt16) (vector : UInt8) : Board :=
  let p := readVector b vector
  Bus.setWord (Bus.setWord b segment slot p.offset) segment (slot + 2) p.segment

def buildPrefix (b : Board) (segment memoryTop : UInt16) (tail : String) : Board :=
  let data := tailBytes tail
  let b := Bus.fill b segment 0 prefixSize 0
  -- INT 20, where a near return to offset 0 arrives
  let b := Bus.setBytes b segment 0 ⟨#[0xCD, 0x20]⟩
  let b := Bus.setWord b segment 0x02 memoryTop
  -- the vectors for termination, Ctrl-Break and critical errors
  let b := saveVector segment b 0x0A 0x22
  let b := saveVector segment b 0x0E 0x23
  let b := saveVector segment b 0x12 0x24
  -- the program is its own parent
  let b := Bus.setWord b segment 0x16 segment
  -- INT 21 and a far return
  let b := Bus.setBytes b segment 0x50 ⟨#[0xCD, 0x21, 0xCB]⟩
  let b := Bus.fill b segment 0x5D 11 0x20
  let b := Bus.fill b segment 0x6D 11 0x20
  let b := Bus.setByte b segment 0x80 (UInt8.ofNat data.size)
  let b := Bus.setBytes b segment 0x81 data
  let b := Bus.setByte b segment (0x81 + UInt16.ofNat data.size) 0x0D
  { b with programSegment := segment }

end RealMode.Pc
