import RealMode.Proofs.PackedDecimal
import RealMode.Proofs.Pc.AnsweredCall
import RealMode.Proofs.Pc.BudgetedRuns
import RealMode.Proofs.Pc.ClockReadings

/-! # The time of day -/
namespace RealMode.Pc

namespace TimeOfDay

def total (t : TimeOfDay) : Nat :=
  ((t.hours * 60 + t.minutes) * 60 + t.seconds) * 100 + t.hundredths

/-- A time that a clock of 24 hours shows. -/
structure OnDial (t : TimeOfDay) : Prop where
  hours : t.hours < 24
  minutes : t.minutes < 60
  seconds : t.seconds < 60
  hundredths : t.hundredths < 100

theorem onDial_ofTicks (ticks : Nat) : (ofTicks ticks).OnDial := by
  constructor <;> exact Nat.mod_lt _ (by decide)

variable {s t : Nat}

/-- The hours wrap after the last tick of the day only. -/
theorem total_ofTicks (h : t < ticksPerDay) :
    (ofTicks t).total = t * 6553600 / 1193180 := by
  have hday : t * 6553600 / 1193180 < 24 * 60 * 60 * 100 := by
    simp only [ticksPerDay] at h
    omega
  simp only [ofTicks, total]
  omega

theorem total_ofTicks_mono (hst : s ≤ t) (h : t < ticksPerDay) :
    (ofTicks s).total ≤ (ofTicks t).total := by
  rw [total_ofTicks (Nat.lt_of_le_of_lt hst h), total_ofTicks h]
  exact Nat.div_le_div_right (Nat.mul_le_mul_right _ hst)

end TimeOfDay

theorem decimal_packedDecimal {n : Nat} (h : n < 100) :
    IsPacked (packedDecimal n) ∧ decimal (packedDecimal n) = n := by
  have hbyte : (packedDecimal n).toNat = n / 10 * 16 + n % 10 := by
    simp only [packedDecimal, UInt8.toNat_ofNat']
    omega
  refine ⟨⟨?_, ?_⟩, ?_⟩
  · rw [hbyte]
    omega
  · rw [hbyte]
    omega
  · rw [decimal, hbyte]
    omega

/-- The registers show a time in packed decimals. -/
structure ShowsPacked (r : Registers) (t : TimeOfDay) : Prop where
  hours : r.get8 .ch = packedDecimal t.hours
  minutes : r.get8 .cl = packedDecimal t.minutes
  seconds : r.get8 .dh = packedDecimal t.seconds

/-- The registers show a time in binary. -/
structure ShowsBinary (r : Registers) (t : TimeOfDay) : Prop where
  hours : (r.get8 .ch).toNat = t.hours
  minutes : (r.get8 .cl).toNat = t.minutes
  seconds : (r.get8 .dh).toNat = t.seconds
  hundredths : (r.get8 .dl).toNat = t.hundredths

/-- Decoded, the packed decimals of one answer are the numbers of the other. -/
structure DecodesTo (packed binary : Registers) : Prop where
  hours : IsPacked (packed.get8 .ch) ∧ decimal (packed.get8 .ch) = (binary.get8 .ch).toNat
  minutes : IsPacked (packed.get8 .cl) ∧ decimal (packed.get8 .cl) = (binary.get8 .cl).toNat
  seconds : IsPacked (packed.get8 .dh) ∧ decimal (packed.get8 .dh) = (binary.get8 .dh).toNat

theorem ShowsPacked.congr {q r : Registers} {t : TimeOfDay} (h : ShowsPacked q t)
    (hsame : ∀ a, r.get8 a = q.get8 a) : ShowsPacked r t :=
  ⟨(hsame _).trans h.hours, (hsame _).trans h.minutes, (hsame _).trans h.seconds⟩

theorem ShowsBinary.congr {q r : Registers} {t : TimeOfDay} (h : ShowsBinary q t)
    (hsame : ∀ a, r.get8 a = q.get8 a) : ShowsBinary r t := by
  constructor
  · rw [hsame, h.hours]
  · rw [hsame, h.minutes]
  · rw [hsame, h.seconds]
  · rw [hsame, h.hundredths]

theorem ShowsPacked.decodesTo {q r : Registers} {t : TimeOfDay} (h : ShowsPacked q t)
    (k : ShowsBinary r t) (ht : t.OnDial) : DecodesTo q r := by
  obtain ⟨hhours, hminutes, hseconds, -⟩ := ht
  constructor
  · rw [h.hours, k.hours]
    exact decimal_packedDecimal (Nat.lt_trans hhours (by decide))
  · rw [h.minutes, k.minutes]
    exact decimal_packedDecimal (Nat.lt_trans hminutes (by decide))
  · rw [h.seconds, k.seconds]
    exact decimal_packedDecimal (Nat.lt_trans hseconds (by decide))

theorem Board.clock_of_reaches {b k : Board} (h : Bus.Reaches b k) : k.clock = b.clock := by
  induction h with
  | refl => rfl
  | write _ _ _ ih => exact ih
  | writeBlock _ _ _ ih => exact ih
  | @portIn k _ port ih =>
    have hport : (k.afterPortIn port).clock = k.clock := by
      rw [afterPortIn]
      split <;> rfl
    exact hport.trans ih
  | portOut _ _ _ ih => exact ih

section Services

variable {H : Type} (c : Cpu Board H)

/-- The ticks that a service reads now, and the clock once it has read them. -/
def clockReading : Nat × Clock := c.memory.clock.read c.counter

def timeNow : TimeOfDay := .ofTicks (clockReading c).1

theorem onDial_timeNow : (timeNow c).OnDial := TimeOfDay.onDial_ofTicks _

variable {c}

theorem clockReading_congr {d : Cpu Board H} (hsteps : d.steps = c.steps)
    (hclock : d.memory.clock = c.memory.clock) : clockReading d = clockReading c := by
  rw [clockReading, Cpu.counter, hsteps, hclock, clockReading, Cpu.counter]

theorem clockReading_atService (vector : UInt8) :
    clockReading (c.atService vector) = clockReading c :=
  clockReading_congr (c.steps_atService vector)
    (Board.clock_of_reaches (c.reaches_atService vector))

variable (c) in
theorem Bios.ticks_currentTicks : (currentTicks c).1 = (clockReading c).1 := rfl

variable (c) in
theorem Bios.clock_currentTicks : (currentTicks c).2.memory.clock = (clockReading c).2 := rfl

/-- A service has told its caller `c` the time, in one form or the other, and has read the clock. -/
structure Tells (Shows : Registers → TimeOfDay → Prop) (d c : Cpu Board H) : Prop where
  shown : Shows d.regs (timeNow c)
  clock : d.memory.clock = (clockReading c).2

theorem Tells.of_reading {Shows : Registers → TimeOfDay → Prop} {k d : Cpu Board H}
    (h : Tells Shows k d) (hreading : clockReading d = clockReading c) : Tells Shows k c := by
  obtain ⟨hshown, hclock⟩ := h
  rw [timeNow, hreading] at hshown
  rw [hreading] at hclock
  exact ⟨hshown, hclock⟩

theorem Bios.tells_time (h : c.regs.get8 .ah = 0x02) : Tells ShowsPacked (time c) c := by
  have htime : time c = readTime c := by
    rw [time, timeFunction?, h]
    rfl
  rw [htime, readTime]
  constructor
  · constructor <;>
      simp [Cpu.setFlag, Cpu.setReg8, Registers.get8_set8, ticks_currentTicks, timeNow]
  · simp only [Cpu.memory_setFlag, Cpu.memory_setReg8, clock_currentTicks]

theorem Dos.tells_readTime : Tells ShowsBinary (readTime c) c := by
  obtain ⟨hhours, hminutes, hseconds, hhundredths⟩ := onDial_timeNow c
  have hbyte {n : Nat} (hn : n < 100) : (UInt8.ofNat n).toNat = n :=
    UInt8.toNat_ofNat_of_lt (Nat.lt_trans hn (by decide))
  have htime : TimeOfDay.ofTicks (Bios.currentTicks c).1 = timeNow c := rfl
  rw [readTime]
  constructor
  · constructor <;>
      simp only [Cpu.setReg8, Registers.get8_set8, htime, reduceCtorEq, ↓reduceIte] <;>
      exact hbyte (by omega)
  · simp only [Cpu.memory_setReg8, Bios.clock_currentTicks]

theorem Dos.tells_serve (h : c.regs.get8 .ah = 0x2C) : Tells ShowsBinary (serve c) c := by
  let d := (c.note .bios .trace fun _ => callText c.regs).setFlag .carry false
  have hserve : serve c = readTime d := by
    simp only [serve, function?, h]
    rfl
  rw [hserve]
  apply Tells.of_reading tells_readTime
  exact clockReading_congr rfl rfl

end Services

theorem tells_answered {c : Cpu Board Service} {vector : UInt8} {s : Service}
    {Shows : Registers → TimeOfDay → Prop}
    (hcongr : ∀ {q r t}, Shows q t → (∀ a, r.get8 a = q.get8 a) → Shows r t)
    (h : Tells Shows (s.serve (c.atService vector)) (c.atService vector)) :
    Tells Shows (answered c vector s) c := by
  obtain ⟨hshown, hclock⟩ := h.of_reading (clockReading_atService vector)
  constructor
  · exact hcongr hshown fun a => get8_answered c vector s a
  · rw [memory_answered, hclock]

/-- The time of a tick is exact to the hundredth of a second and does not run back, and what the
BIOS tells in packed decimals is what DOS tells at the same step of the same clock. -/
theorem time_of_day_faithful :
    (∀ t < ticksPerDay, (TimeOfDay.ofTicks t).OnDial ∧
      (TimeOfDay.ofTicks t).total = t * 6553600 / 1193180 ∧
      ∀ s ≤ t, (TimeOfDay.ofTicks s).total ≤ (TimeOfDay.ofTicks t).total) ∧
    ∀ c d : Cpu Board Service, c.services.get? 0x1A = some .time → c.regs.get8 .ah = 0x02 →
      d.services.get? 0x21 = some .dos → d.regs.get8 .ah = 0x2C →
      d.steps = c.steps → d.memory.clock = c.memory.clock →
        ∃ e k, Cpu.interrupt 0x1A c = .ok () e ∧ Cpu.interrupt 0x21 d = .ok () k ∧
          DecodesTo e.regs k.regs ∧ ShowsBinary k.regs (timeNow c) ∧
          e.memory.clock = k.memory.clock := by
  constructor
  · intro t ht
    exact ⟨TimeOfDay.onDial_ofTicks t, TimeOfDay.total_ofTicks ht,
      fun s hst => TimeOfDay.total_ofTicks_mono hst ht⟩
  · intro c d hbios hc hdos hd hsteps hclock
    have hpacked : Tells ShowsPacked (answered c 0x1A .time) c :=
      tells_answered .congr (Bios.tells_time ((c.get8_atService 0x1A .ah).trans hc))
    have hbinary : Tells ShowsBinary (answered d 0x21 .dos) d :=
      tells_answered .congr (Dos.tells_serve ((d.get8_atService 0x21 .ah).trans hd))
    have hsame := hbinary.of_reading (clockReading_congr hsteps hclock)
    exact ⟨_, _, interrupt_eq_answered hbios, interrupt_eq_answered hdos,
      hpacked.shown.decodesTo hsame.shown (onDial_timeNow c), hsame.shown,
      hpacked.clock.trans hsame.clock.symm⟩

/-- A processor with one service, in the last tick of the day. -/
def beforeMidnight (vector : UInt8) (s : Service) (ax : UInt16) : Cpu Board Service :=
  let c := showing vector s ax 0
  { c with memory := { c.memory with clock := .set (ticksPerDay - 1) 0 } }

theorem time_before_midnight :
    let c := beforeMidnight 0x1A .time 0x0200
    let d := beforeMidnight 0x21 .dos 0x2C00
    ticksPerDay - 1 < ticksPerDay ∧ (TimeOfDay.ofTicks (ticksPerDay - 1)).total = 8639994 ∧
      c.services.get? 0x1A = some .time ∧ c.regs.get8 .ah = 0x02 ∧
      d.services.get? 0x21 = some .dos ∧ d.regs.get8 .ah = 0x2C ∧
      d.steps = c.steps ∧ d.memory.clock = c.memory.clock ∧
      ∃ e k, Cpu.interrupt 0x1A c = .ok () e ∧ Cpu.interrupt 0x21 d = .ok () k ∧
        DecodesTo e.regs k.regs ∧ ShowsBinary k.regs ⟨23, 59, 59, 94⟩ := by
  intro c d
  have hlast : ticksPerDay - 1 < ticksPerDay := by decide
  obtain ⟨hticks, hservices⟩ := time_of_day_faithful
  have hc := get?_showing 0x1A .time 0x0200 0
  have hd := get?_showing 0x21 .dos 0x2C00 0
  have hcah : c.regs.get8 .ah = 0x02 := by decide
  have hdah : d.regs.get8 .ah = 0x2C := by decide
  have htime : timeNow c = ⟨23, 59, 59, 94⟩ := by decide
  obtain ⟨e, k, he, hk, hdecodes, hshows, -⟩ := hservices c d hc hcah hd hdah rfl rfl
  exact ⟨hlast, (hticks _ hlast).2.1.trans (by decide), hc, hcah, hd, hdah, rfl, rfl, e, k, he, hk,
    hdecodes, htime ▸ hshows⟩

end RealMode.Pc
