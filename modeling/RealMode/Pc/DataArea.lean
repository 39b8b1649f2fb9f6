import RealMode.Interrupt
import RealMode.Pc.Board

/-! # The BIOS data area -/
namespace RealMode.Pc

def dataSegment : UInt16 := 0x0040

def biosSegment : UInt16 := 0xF000

def equipmentOffset : UInt16 := 0x10

def memorySizeOffset : UInt16 := 0x13

def modeOffset : UInt16 := 0x49

def columnsOffset : UInt16 := 0x4A

def pageSizeOffset : UInt16 := 0x4C

def cursorOffset : UInt16 := 0x50

def ticksOffset : UInt16 := 0x6C

def midnightOffset : UInt16 := 0x70

def lastRowOffset : UInt16 := 0x84

/-- A colour display with 80 columns and no floppy drives. -/
def equipmentWord : UInt16 := 0x0020

namespace Board

def publishScreen (b : Board) : Board :=
  let s := b.screen
  let b := Bus.setByte b dataSegment modeOffset s.mode
  let b := Bus.setByte b dataSegment cursorOffset (UInt8.ofNat s.col)
  Bus.setByte b dataSegment (cursorOffset + 1) (UInt8.ofNat s.row)

def publishTicks (b : Board) (ticks : Nat) : Board :=
  let b := Bus.setWord b dataSegment ticksOffset (UInt16.ofNat ticks)
  Bus.setWord b dataSegment (ticksOffset + 2) (UInt16.ofNat (ticks / 0x10000))

def readClock (b : Board) (steps : Nat) : Nat × Board :=
  let (ticks, clock) := b.clock.read steps
  (ticks, publishTicks { b with clock := clock } ticks)

/-- The date of the BIOS, near the end of the ROM. -/
def biosDate : ByteArray := "01/10/86".toUTF8

/-- What a PC/XT says it is, in the last byte of the ROM but one. -/
def modelByte : UInt8 := 0xFE

def initDataArea (b : Board) : Board :=
  let b := Bus.setWord b dataSegment equipmentOffset equipmentWord
  let b := Bus.setWord b dataSegment memorySizeOffset b.memoryKb
  let b := Bus.setWord b dataSegment columnsOffset (UInt16.ofNat columns)
  let b := Bus.setWord b dataSegment pageSizeOffset (UInt16.ofNat pageSize)
  let b := Bus.setByte b dataSegment lastRowOffset (UInt8.ofNat (rows - 1))
  let b := b.publishScreen
  let b := Bus.setBytes b biosSegment 0xFFF5 biosDate
  Bus.setByte b biosSegment 0xFFFE modelByte

end Board
end RealMode.Pc
