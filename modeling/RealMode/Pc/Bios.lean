import RealMode.Pc.Video

/-! # Equipment, keyboard and time services -/
namespace RealMode.Pc.Bios

variable {H : Type}

def equipment (c : Cpu Board H) : Cpu Board H :=
  c.setReg .ax (Bus.getWord c.memory dataSegment equipmentOffset)

def memorySize (c : Cpu Board H) : Cpu Board H :=
  c.setReg .ax (Bus.getWord c.memory dataSegment memorySizeOffset)

def takeKey (c : Cpu Board H) : Option UInt16 × Cpu Board H :=
  let (key, keyboard) := c.memory.keyboard.take
  (key, { c with memory := { c.memory with keyboard := keyboard } })

def readKey (c : Cpu Board H) : Cpu Board H :=
  match takeKey c with
  | (some key, c) => c.setReg .ax key
  | (none, c) =>
    let c := c.note .bios .debug fun _ => "INT 16h: read with empty keyboard buffer"
    c.setReg .ax 0

/-- Shows the next key in AX; the zero flag says that there is none. -/
def peekKey (c : Cpu Board H) : Cpu Board H :=
  match c.memory.keyboard.next? with
  | some key => (c.setReg .ax key).setFlag .zero false
  | none => c.setFlag .zero true

/-- No modifier key is ever held. -/
def shiftState (c : Cpu Board H) : Cpu Board H := c.setReg8 .al 0

def keyboardFunction? (ah : UInt8) : Option (Cpu Board H → Cpu Board H) :=
  match ah.toNat with
  | 0x00 | 0x10 => some readKey
  | 0x01 | 0x11 => some peekKey
  | 0x02 | 0x12 => some shiftState
  | _ => none

def keyboard (c : Cpu Board H) : Cpu Board H :=
  let ah := c.regs.get8 .ah
  match keyboardFunction? ah with
  | some f => f c
  | none => unimplemented c 0x16 ah

/-- Ticks since midnight, which the data area then shows. -/
def currentTicks (c : Cpu Board H) : Nat × Cpu Board H :=
  let (ticks, b) := c.memory.readClock c.counter
  (ticks, { c with memory := b })

/-- The tick count in CX and DX; AL says whether midnight has passed since the last call. -/
def readTicks (c : Cpu Board H) : Cpu Board H :=
  let (ticks, c) := currentTicks c
  let (midnight, clock) := c.memory.clock.takeMidnight
  let b := { c.memory with clock := clock }
  let c := { c with memory := Bus.setByte b dataSegment midnightOffset 0 }
  let c := c.setReg .cx (UInt16.ofNat (ticks / 0x10000))
  let c := c.setReg .dx (UInt16.ofNat ticks)
  c.setReg8 .al (if midnight then 1 else 0)

def setTicks (c : Cpu Board H) : Cpu Board H :=
  let ticks := c.regs.cx.toNat * 0x10000 + c.regs.dx.toNat
  let clock := Clock.set ticks c.counter
  (currentTicks { c with memory := { c.memory with clock := clock } }).2

def readTime (c : Cpu Board H) : Cpu Board H :=
  let (ticks, c) := currentTicks c
  let t := TimeOfDay.ofTicks ticks
  let c := c.setReg8 .ch (packedDecimal t.hours)
  let c := c.setReg8 .cl (packedDecimal t.minutes)
  let c := c.setReg8 .dh (packedDecimal t.seconds)
  let c := c.setReg8 .dl 0
  c.setFlag .carry false

/-- It is always the first of January 1980. -/
def readDate (c : Cpu Board H) : Cpu Board H :=
  ((c.setReg .cx 0x1980).setReg .dx 0x0101).setFlag .carry false

def timeFunction? (ah : UInt8) : Option (Cpu Board H → Cpu Board H) :=
  match ah.toNat with
  | 0x00 => some readTicks
  | 0x01 => some setTicks
  | 0x02 => some readTime
  | 0x04 => some readDate
  | _ => none

def time (c : Cpu Board H) : Cpu Board H :=
  let ah := c.regs.get8 .ah
  match timeFunction? ah with
  | some f => f c
  | none => unimplemented c 0x1A ah

end RealMode.Pc.Bios
