/-! # The tick clock

A reading past midnight rebases the clock and remembers that a day went by.
-/
namespace RealMode.Pc

/-- About 18.2 ticks a second. -/
def ticksPerDay : Nat := 0x1800B0

/-- Instructions in one tick of 55 ms at 4.77 MHz. -/
def stepsPerTick : Nat := 21845

structure Clock where
  baseTicks : Nat
  baseSteps : Nat
  midnight : Bool
  deriving DecidableEq, Repr

structure TimeOfDay where
  hours : Nat
  minutes : Nat
  seconds : Nat
  hundredths : Nat
  deriving DecidableEq, Repr

namespace Clock

def zero : Clock := ⟨0, 0, false⟩

def read (c : Clock) (steps : Nat) : Nat × Clock :=
  let total := c.baseTicks + (steps - c.baseSteps) / stepsPerTick
  if ticksPerDay ≤ total then
    let ticks := total % ticksPerDay
    (ticks, ⟨ticks, steps, true⟩)
  else (total, c)

def set (ticks steps : Nat) : Clock := ⟨ticks % ticksPerDay, steps, false⟩

def takeMidnight (c : Clock) : Bool × Clock := (c.midnight, { c with midnight := false })

end Clock

namespace TimeOfDay

/-- The timer runs at 1193180 Hz divided by 65536. -/
def ofTicks (ticks : Nat) : TimeOfDay :=
  let hundredths := ticks * 6553600 / 1193180
  let seconds := hundredths / 100
  ⟨seconds / 3600 % 24, seconds / 60 % 60, seconds % 60, hundredths % 100⟩

end TimeOfDay

def packedDecimal (n : Nat) : UInt8 := UInt8.ofNat (n / 10 * 16 + n % 10)

end RealMode.Pc
