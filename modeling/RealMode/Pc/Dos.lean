import RealMode.Pc.Bios

/-! # DOS services

The carry flag says that a function does not exist; all that do exist succeed.
-/
namespace RealMode.Pc.Dos

variable {H : Type}

/-- What a program reads when no key is left: Ctrl-Z. -/
def endOfFile : UInt8 := 0x1A

def terminator : UInt8 := 0x24

/-- Version 5.0, the major number in the low byte. -/
def version : UInt16 := 0x0005

def invalidFunction : UInt16 := 0x0001

def terminate (code : UInt8) (c : Cpu Board H) : Cpu Board H :=
  let steps := c.counter
  let c := c.note .bios .info fun _ =>
    "program terminated with code " ++ toString code.toNat ++ " after " ++ toString steps ++
      " steps"
  { c with memory := { c.memory with exitCode := some code }, halted := true }

def print (c : Cpu Board H) (character : UInt8) : Cpu Board H :=
  { c with memory := c.memory.teletype character }

def readCharacter (c : Cpu Board H) : UInt8 × Cpu Board H :=
  match Bios.takeKey c with
  | (some key, c) => (lowByte key, c)
  | (none, c) =>
    (endOfFile, c.note .bios .debug fun _ =>
      "INT 21h: character read with empty keyboard buffer")

def terminateWithZero (c : Cpu Board H) : Cpu Board H := terminate 0 c

def terminateWithCode (c : Cpu Board H) : Cpu Board H := terminate (c.regs.get8 .al) c

def readWithEcho (c : Cpu Board H) : Cpu Board H :=
  let (character, c) := readCharacter c
  let c := if character = endOfFile then c else print c character
  c.setReg8 .al character

def readSilently (c : Cpu Board H) : Cpu Board H :=
  let (character, c) := readCharacter c
  c.setReg8 .al character

def printCharacter (c : Cpu Board H) : Cpu Board H :=
  let character := c.regs.get8 .dl
  (print c character).setReg8 .al character

/-- Prints DL unless it is FF; then reads a key, the zero flag saying that there is none. -/
def directConsole (c : Cpu Board H) : Cpu Board H :=
  if c.regs.get8 .dl = 0xFF then
    match Bios.takeKey c with
    | (some key, c) => (c.setReg8 .al (lowByte key)).setFlag .zero false
    | (none, c) => (c.setReg8 .al 0).setFlag .zero true
  else printCharacter c

/-- Prints the bytes of a segment from an offset up to a dollar sign, `count` at most. -/
def printFrom (b : Board) (segment offset : UInt16) : Nat → Board
  | 0 => b
  | count + 1 =>
    let character := Bus.getByte b segment offset
    if character = terminator then b
    else printFrom (b.teletype character) segment (offset + 1) count

/-- Prints the string at DS:DX; one without an end stops after the whole segment. -/
def printString (c : Cpu Board H) : Cpu Board H :=
  let r := c.regs
  let c := { c with memory := printFrom c.memory r.ds r.dx 0x10000 }
  c.setReg8 .al terminator

def inputStatus (c : Cpu Board H) : Cpu Board H :=
  c.setReg8 .al (if c.memory.keyboard.hasKey then 0xFF else 0x00)

/-- The third drive, C. -/
def currentDrive (c : Cpu Board H) : Cpu Board H := c.setReg8 .al 2

/-- Points vector AL at DS:DX. A host service keeps serving its vector all the same. -/
def setVector (c : Cpu Board H) : Cpu Board H :=
  let r := c.regs
  let vector := r.get8 .al
  let c := { c with memory := writeVector c.memory vector ⟨r.ds, r.dx⟩ }
  if c.services.isRegistered vector then
    c.note .bios .debug fun _ =>
      "INT 21h/25h: vector 0x" ++ Text.upperHex 2 vector.toNat ++ " keeps its host service"
  else c

/-- It is always Tuesday the first of January 1980. -/
def readDate (c : Cpu Board H) : Cpu Board H :=
  let c := c.setReg .cx 1980
  let c := c.setReg8 .dh 1
  let c := c.setReg8 .dl 1
  c.setReg8 .al 2

def readTime (c : Cpu Board H) : Cpu Board H :=
  let (ticks, c) := Bios.currentTicks c
  let t := TimeOfDay.ofTicks ticks
  let c := c.setReg8 .ch (UInt8.ofNat t.hours)
  let c := c.setReg8 .cl (UInt8.ofNat t.minutes)
  let c := c.setReg8 .dh (UInt8.ofNat t.seconds)
  c.setReg8 .dl (UInt8.ofNat t.hundredths)

def readVersion (c : Cpu Board H) : Cpu Board H :=
  ((c.setReg .ax version).setReg .bx 0xFF00).setReg .cx 0

def getVector (c : Cpu Board H) : Cpu Board H :=
  let p := readVector c.memory (c.regs.get8 .al)
  (c.setSeg .es p.segment).setReg .bx p.offset

/-- No program has ever run another. -/
def childCode (c : Cpu Board H) : Cpu Board H := c.setReg .ax 0

def programSegment (c : Cpu Board H) : Cpu Board H := c.setReg .bx c.memory.programSegment

def function? (ah : UInt8) : Option (Cpu Board H → Cpu Board H) :=
  match ah.toNat with
  | 0x00 => some terminateWithZero
  | 0x01 => some readWithEcho
  | 0x02 => some printCharacter
  | 0x06 => some directConsole
  | 0x07 | 0x08 => some readSilently
  | 0x09 => some printString
  | 0x0B => some inputStatus
  | 0x19 => some currentDrive
  | 0x25 => some setVector
  | 0x2A => some readDate
  | 0x2C => some readTime
  | 0x30 => some readVersion
  | 0x35 => some getVector
  | 0x4C => some terminateWithCode
  | 0x4D => some childCode
  | 0x51 | 0x62 => some programSegment
  | _ => none

def callText (r : Registers) : String :=
  "INT 21h AH=" ++ Text.upperHex 2 (r.get8 .ah).toNat ++ " AL=" ++
    Text.upperHex 2 (r.get8 .al).toNat ++ " DX=" ++ Text.upperHex 4 r.dx.toNat

def serve (c : Cpu Board H) : Cpu Board H :=
  let r := c.regs
  let ah := r.get8 .ah
  let c := c.note .bios .trace fun _ => callText r
  let c := c.setFlag .carry false
  match function? ah with
  | some f => f c
  | none => (unimplemented c 0x21 ah).setReg .ax invalidFunction

end RealMode.Pc.Dos
