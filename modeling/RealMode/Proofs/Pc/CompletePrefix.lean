import RealMode.Proofs.EncodedSteps
import RealMode.Proofs.KeptRange
import RealMode.Proofs.Pc.AnsweredCall
import RealMode.Proofs.Pc.BudgetedRuns

/-! # The prefix of a loaded program

Each group of writes stays within a range, so what a group has written is kept by all that come
later.
-/
namespace RealMode.Pc

def tailSize (tail : String) : Nat := min tail.utf8ByteSize tailLimit

theorem tailSize_le (tail : String) : tailSize tail ≤ tailLimit := Nat.min_le_right _ _

theorem size_tailBytes (tail : String) : (tailBytes tail).size = tailSize tail := by
  rw [tailBytes, ByteArray.size_extract, tailSize, Nat.sub_zero, Nat.min_comm]
  rfl

theorem tailBytes_eq_extract (tail : String) :
    tailBytes tail = tail.toUTF8.extract 0 (tailSize tail) := by
  apply ByteArray.ext_getElem
  · rw [size_tailBytes, ByteArray.size_extract]
    exact (Nat.min_eq_left (Nat.min_le_left _ _)).symm
  · intro i hi hi'
    simp only [tailBytes, ByteArray.getElem_extract]

theorem toNat_behindTail {n : Nat} (h : n ≤ tailLimit) :
    (0x81 + UInt16.ofNat n).toNat = 0x81 + n := by
  rw [tailLimit] at h
  rw [UInt16.toNat_add, UInt16.toNat_ofNat']
  show (0x81 + n % 0x10000) % 0x10000 = _
  omega

theorem misses_behindTail {n : Nat} (h : n ≤ tailLimit) {low last : UInt16}
    (hlast : last.toNat ≤ 0x80 + n) : Misses (0x81 + UInt16.ofNat n) 1 low last := by
  have hbehind := toNat_behindTail h
  rw [tailLimit] at h
  rw [Misses, UInt16.lt_iff_toNat_lt, hbehind]
  omega

/-- The prefix in a segment is complete, on a machine with so many units of 1024 bytes. -/
structure Prefixed (b : Board) (segment : UInt16) (memoryKb : Nat) (tail : String) : Prop where
  /-- INT 20 -/
  exit : Bus.getBytes b segment 0 2 = ⟨#[0xCD, 0x20]⟩
  memoryTop : (Bus.getWord b segment 0x02).toNat = 64 * memoryKb
  /-- INT 21 and RETF -/
  dos : Bus.getBytes b segment 0x50 3 = ⟨#[0xCD, 0x21, 0xCB]⟩
  size : (Bus.getByte b segment 0x80).toNat = tailSize tail
  text : Bus.getBytes b segment 0x81 (tailSize tail) = tail.toUTF8.extract 0 (tailSize tail)
  ending : Bus.getByte b segment (0x81 + UInt16.ofNat (tailSize tail)) = 0x0D
  within : 0x81 + tailSize tail < prefixSize

theorem Prefixed.of_keeps {b k : Board} {segment : UInt16} {memoryKb : Nat} {tail : String}
    (h : Prefixed b segment memoryKb tail) (hk : Bus.Keeps segment 0 0xFF b k) :
    Prefixed k segment memoryKb tail := by
  have hbehind := toNat_behindTail (tailSize_le tail)
  have hwithin : 0x81 + tailSize tail < 0x100 := h.within
  constructor
  · rw [hk.getBytes (by decide) (by decide), h.exit]
  · rw [hk.getWord (by decide) (by decide), h.memoryTop]
  · rw [hk.getBytes (by decide) (by decide), h.dos]
  · rw [hk 0x80 (by decide) (by decide), h.size]
  · rw [hk.getBytes (by decide) (Nat.le_of_lt hwithin), h.text]
  · have hlast : 0x81 + UInt16.ofNat (tailSize tail) ≤ 0xFF := by
      rw [UInt16.le_iff_toNat_le, hbehind]
      exact Nat.le_of_lt_succ hwithin
    rw [hk _ (UInt16.le_iff_toNat_le.mpr (Nat.zero_le _)) hlast, h.ending]
  · exact h.within

section Groups

variable (b : Board) (segment memoryTop : UInt16)

def openPrefix : Board :=
  Bus.setWord (Bus.setBytes (Bus.fill b segment 0 prefixSize 0) segment 0 ⟨#[0xCD, 0x20]⟩) segment
    0x02 memoryTop

def linkPrefix : Board :=
  Bus.setWord (saveVector segment (saveVector segment (saveVector segment b 0x0A 0x22) 0x0E 0x23)
    0x12 0x24) segment 0x16 segment

def enterDos : Board := Bus.setBytes b segment 0x50 ⟨#[0xCD, 0x21, 0xCB]⟩

def blankNames : Board := Bus.fill (Bus.fill b segment 0x5D 11 0x20) segment 0x6D 11 0x20

def writeTail (data : ByteArray) : Board :=
  Bus.setByte (Bus.setBytes (Bus.setByte b segment 0x80 (UInt8.ofNat data.size)) segment 0x81 data)
    segment (0x81 + UInt16.ofNat data.size) 0x0D

def finishPrefix (data : ByteArray) : Board :=
  { writeTail b segment data with programSegment := segment }

theorem getByte_finishPrefix (data : ByteArray) (o : UInt16) :
    Bus.getByte (finishPrefix b segment data) segment o =
      Bus.getByte (writeTail b segment data) segment o := by
  rw [finishPrefix]
  generalize writeTail b segment data = k
  rfl

theorem buildPrefix_eq (tail : String) : buildPrefix b segment memoryTop tail =
    finishPrefix (blankNames (enterDos (linkPrefix (openPrefix b segment memoryTop) segment)
      segment) segment) segment (tailBytes tail) := rfl

theorem getBytes_openPrefix :
    Bus.getBytes (openPrefix b segment memoryTop) segment 0 2 = ⟨#[0xCD, 0x20]⟩ := by
  let k := Bus.setBytes (Bus.fill b segment 0 prefixSize 0) segment 0 ⟨#[0xCD, 0x20]⟩
  have hkeeps : Bus.Keeps segment 0 0x01 k (openPrefix b segment memoryTop) :=
    Bus.Keeps.refl.setWord (by decide) memoryTop
  have hfit : (⟨#[0xCD, 0x20]⟩ : ByteArray).size ≤ 0x10000 := by decide
  rw [hkeeps.getBytes (by decide) (by decide)]
  exact Bus.getBytes_setBytes _ segment 0 hfit

theorem getWord_openPrefix :
    Bus.getWord (openPrefix b segment memoryTop) segment 0x02 = memoryTop :=
  Bus.getWord_setWord _ _ _ _

theorem getBytes_enterDos :
    Bus.getBytes (enterDos b segment) segment 0x50 3 = ⟨#[0xCD, 0x21, 0xCB]⟩ := by
  have hfit : (⟨#[0xCD, 0x21, 0xCB]⟩ : ByteArray).size ≤ 0x10000 := by decide
  exact Bus.getBytes_setBytes b segment 0x50 hfit

end Groups

section Kept

variable {segment low last : UInt16} {m k : Board} (h : Bus.Keeps segment low last m k)
include h

theorem keeps_openPrefix (ha : Misses 0 prefixSize low last) (memoryTop : UInt16) :
    Bus.Keeps segment low last m (openPrefix k segment memoryTop) := by
  have hexit : Misses 0 2 low last := ha.within (by decide) (by decide)
  exact ((h.fill ha 0).setBytes hexit).setWord (ha.within (by decide) (by decide)) memoryTop

theorem keeps_linkPrefix (ha : Misses 0x0A 14 low last) :
    Bus.Keeps segment low last m (linkPrefix k segment) := by
  have hsave {l : Board} (hl : Bus.Keeps segment low last m l) (slot : UInt16) (vector : UInt8)
      (hfirst : Misses slot 2 low last) (hsecond : Misses (slot + 2) 2 low last) :
      Bus.Keeps segment low last m (saveVector segment l slot vector) :=
    (hl.setWord hfirst _).setWord hsecond _
  have hend := hsave h 0x0A 0x22 (ha.within (by decide) (by decide))
    (ha.within (by decide) (by decide))
  have hbreak := hsave hend 0x0E 0x23 (ha.within (by decide) (by decide))
    (ha.within (by decide) (by decide))
  have herror := hsave hbreak 0x12 0x24 (ha.within (by decide) (by decide))
    (ha.within (by decide) (by decide))
  exact herror.setWord (ha.within (by decide) (by decide)) segment

theorem keeps_enterDos (ha : Misses 0x50 3 low last) :
    Bus.Keeps segment low last m (enterDos k segment) := h.setBytes ha

theorem keeps_blankNames (ha : Misses 0x5D 27 low last) :
    Bus.Keeps segment low last m (blankNames k segment) :=
  (h.fill (ha.within (by decide) (by decide)) 0x20).fill (ha.within (by decide) (by decide)) 0x20

theorem keeps_finishPrefix {data : ByteArray} (hsize : data.size ≤ tailLimit)
    (ha : Misses 0x80 0x80 low last) :
    Bus.Keeps segment low last m (finishPrefix k segment data) := by
  have hbehind := toNat_behindTail hsize
  rw [tailLimit] at hsize
  have htext : Misses 0x81 data.size low last :=
    ha.within (by decide) (show 0x81 + data.size ≤ 0x100 by omega)
  have hending : Misses (0x81 + UInt16.ofNat data.size) 1 low last := by
    apply ha.within
    · rw [UInt16.le_iff_toNat_le, hbehind]
      show 0x80 ≤ 0x81 + data.size
      omega
    · rw [hbehind]
      show 0x81 + data.size + 1 ≤ 0x100
      omega
  have hfirst : Misses 0x80 1 low last := ha.within (by decide) (by decide)
  have hkeeps := ((h.setByte hfirst (UInt8.ofNat data.size)).setBytes htext).setByte hending 0x0D
  intro o hlow hlast
  rw [getByte_finishPrefix]
  exact hkeeps o hlow hlast

end Kept

section Tail

variable (b : Board) (segment : UInt16) {data : ByteArray} (hsize : data.size ≤ tailLimit)
include hsize

theorem getByte_writeTail :
    Bus.getByte (writeTail b segment data) segment 0x80 = UInt8.ofNat data.size := by
  let k := Bus.setByte b segment 0x80 (UInt8.ofNat data.size)
  have htext : Misses 0x81 data.size 0x80 0x80 :=
    .inr ⟨by decide, show 0x81 + data.size ≤ 0x10000 by rw [tailLimit] at hsize; omega⟩
  have hkeeps : Bus.Keeps segment 0x80 0x80 k (writeTail b segment data) :=
    (Bus.Keeps.refl.setBytes htext).setByte (misses_behindTail hsize (Nat.le_add_right _ _)) 0x0D
  rw [hkeeps 0x80 (by decide) (by decide), Bus.getByte_setByte, if_pos rfl]

theorem getBytes_writeTail :
    Bus.getBytes (writeTail b segment data) segment 0x81 data.size = data := by
  let k := Bus.setBytes (Bus.setByte b segment 0x80 (UInt8.ofNat data.size)) segment 0x81 data
  have hlimit : data.size ≤ 126 := hsize
  have hlast : (0x80 + UInt16.ofNat data.size).toNat = 0x80 + data.size := by
    rw [UInt16.toNat_add, UInt16.toNat_ofNat']
    show (0x80 + data.size % 0x10000) % 0x10000 = _
    omega
  have hkeeps : Bus.Keeps segment 0x81 (0x80 + UInt16.ofNat data.size) k
      (writeTail b segment data) :=
    Bus.Keeps.refl.setByte (misses_behindTail hsize (Nat.le_of_eq hlast)) 0x0D
  rw [hkeeps.getBytes (UInt16.le_refl _) ?_]
  · exact Bus.getBytes_setBytes _ segment 0x81 (by omega)
  · rw [hlast]
    show 0x81 + data.size ≤ 0x80 + data.size + 1
    omega

end Tail

section Built

variable (b : Board) (segment memoryTop : UInt16) (tail : String)

theorem size_tailBytes_le : (tailBytes tail).size ≤ tailLimit :=
  size_tailBytes tail ▸ tailSize_le tail

theorem keeps_buildPrefix :
    Bus.Keeps segment 0x0100 0xFFFF b (buildPrefix b segment memoryTop tail) := by
  have hstart : Bus.Keeps segment 0x0100 0xFFFF b b := .refl
  have hopen := keeps_openPrefix hstart (by decide) memoryTop
  have hlink := keeps_linkPrefix hopen (by decide)
  have hnames := keeps_blankNames (keeps_enterDos hlink (by decide)) (by decide)
  rw [buildPrefix_eq]
  exact keeps_finishPrefix hnames (size_tailBytes_le tail) (by decide)

theorem keeps_opening : Bus.Keeps segment 0 0x03 (openPrefix b segment memoryTop)
    (buildPrefix b segment memoryTop tail) := by
  generalize hopen : openPrefix b segment memoryTop = start
  have hstart : Bus.Keeps segment 0 0x03 start start := .refl
  have hlink := keeps_linkPrefix hstart (by decide)
  have hnames := keeps_blankNames (keeps_enterDos hlink (by decide)) (by decide)
  rw [buildPrefix_eq, hopen]
  exact keeps_finishPrefix hnames (size_tailBytes_le tail) (by decide)

theorem exists_keeps_enterDos : ∃ k, Bus.Keeps segment 0x50 0x52 (enterDos k segment)
    (buildPrefix b segment memoryTop tail) := by
  refine ⟨linkPrefix (openPrefix b segment memoryTop) segment, ?_⟩
  rw [buildPrefix_eq]
  exact keeps_finishPrefix (keeps_blankNames .refl (by decide)) (size_tailBytes_le tail) (by decide)

theorem exists_keeps_writeTail : ∃ k, Bus.Keeps segment 0 0xFFFF (writeTail k segment (tailBytes tail))
    (buildPrefix b segment memoryTop tail) := by
  rw [buildPrefix_eq]
  exact ⟨_, fun o _ _ => getByte_finishPrefix _ _ _ o⟩

variable {memoryTop}

theorem prefixed_buildPrefix {memoryKb : Nat} (htop : memoryTop.toNat = 64 * memoryKb) :
    Prefixed (buildPrefix b segment memoryTop tail) segment memoryKb tail := by
  have hopening := keeps_opening b segment memoryTop tail
  obtain ⟨entered, hentered⟩ := exists_keeps_enterDos b segment memoryTop tail
  obtain ⟨finished, hfinished⟩ := exists_keeps_writeTail b segment memoryTop tail
  have hsize := size_tailBytes_le tail
  have hwithin : 0x81 + (tailBytes tail).size < 0x100 :=
    Nat.lt_succ_of_le (Nat.add_le_add_left hsize 0x81)
  have hbyte (o : UInt16) := hfinished o (UInt16.le_iff_toNat_le.mpr (Nat.zero_le _))
    (UInt16.le_iff_toNat_le.mpr (Nat.le_of_lt_succ o.toNat_lt))
  constructor
  · rw [hopening.getBytes (by decide) (by decide), getBytes_openPrefix]
  · rw [hopening.getWord (by decide) (by decide), getWord_openPrefix, htop]
  · rw [hentered.getBytes (by decide) (by decide), getBytes_enterDos]
  · rw [hbyte, getByte_writeTail _ _ hsize, UInt8.toNat_ofNat', ← size_tailBytes]
    omega
  · have hend : 0x81 + (tailBytes tail).size ≤ 0x10000 := by omega
    rw [← tailBytes_eq_extract, ← size_tailBytes, hfinished.getBytes (by decide) hend]
    exact getBytes_writeTail _ _ hsize
  · rw [hbyte, writeTail, Bus.getByte_setByte, size_tailBytes, if_pos rfl]
  · rw [← size_tailBytes]
    exact hwithin

theorem prefixed_placeProgram {p : Program} (hfit : p.image.size ≤ imageLimit)
    (hmemory : b.memoryKb.toNat ≤ 640) :
    Prefixed (placeProgram b segment p) segment b.memoryKb.toNat p.tail := by
  have htop : (UInt16.ofNat (min 0xFFFF (b.memoryKb.toNat * 64))).toNat =
      64 * b.memoryKb.toNat := by
    rw [UInt16.toNat_ofNat']
    omega
  have himage : Misses entryOffset p.image.size 0 0xFF := by
    have hend : 0x0100 + p.image.size ≤ 0x10000 := Nat.add_le_of_le_sub' (by decide) hfit
    exact .inr ⟨by decide, hend⟩
  exact (prefixed_buildPrefix b segment p.tail htop).of_keeps
    ((Bus.Keeps.refl.setBytes himage).setWord (by decide) 0)

end Built

theorem Service.get?_terminate : table.get? 0x20 = some terminate :=
  get?_table_of_lastPut? (by decide +kernel)

/-- The processor steps from `c` to `d`, and from there to `e`, where its program has ended. -/
structure EndsThrough (c d e : Cpu Board Service) (code : UInt8) : Prop where
  started : c.halted = false
  first : Cpu.step c = .ok () d
  running : d.halted = false
  second : Cpu.step d = .ok () e
  halted : e.halted = true
  exitCode : e.memory.exitCode = some code
  steps : e.steps = c.steps + 2

namespace Installed

variable {config : Config} {c : Cpu Board Service} (hc : Installed config c)
include hc

theorem step_of_calls_terminate (hcalls : c.Calls 0x20) :
    ∃ d, Cpu.step c = .ok () d ∧ d.halted = true ∧ d.memory.exitCode = some 0 ∧
      d.steps = c.steps + 1 := by
  obtain ⟨d, hd, -, hsteps⟩ := Installed.counting config hc hcalls.running
  have hreg : c.atInstruction.services.get? 0x20 = some .terminate := by
    rw [Cpu.services_atInstruction, hc.services, Service.get?_terminate]
  have hanswered := (Cpu.step_of_raised hcalls.raised?_eq).trans (interrupt_eq_answered hreg)
  rw [hanswered] at hd
  cases hd
  refine ⟨_, hanswered, ?_, ?_, hsteps⟩
  · rw [halted_answered]
    rfl
  · rw [memory_answered]
    rfl

/-- A near return to the start of a prefix ends the program. -/
theorem exists_endsThrough (hrunning : c.halted = false) (hret : c.facing 0 = 0xC3)
    (htop : c.top = 0) (hexit : Bus.getBytes c.memory c.regs.cs 0 2 = ⟨#[0xCD, 0x20]⟩) :
    ∃ d e, EndsThrough c d e 0 := by
  obtain ⟨d, hd⟩ := Cpu.step_ret hrunning hret
  obtain ⟨d', hd', hinstalled, -⟩ := Installed.counting config hc hrunning
  rw [hd.step] at hd'
  cases hd'
  have hcalls : d.Calls 0x20 := by
    apply Cpu.calls_of_bytes hd.running
    · rw [hd.memory, hd.regs, htop]
      exact Bus.getByte_of_getBytes (i := 0) hexit rfl
    · rw [hd.memory, hd.regs, htop]
      exact Bus.getByte_of_getBytes (i := 1) hexit rfl
  obtain ⟨e, he, hhalted, hcode, hsteps⟩ := hinstalled.step_of_calls_terminate hcalls
  exact ⟨d, e, hrunning, hd.step, hd.running, he, hhalted, hcode, by rw [hsteps, hd.steps]⟩

theorem run_of_endsThrough {d e : Cpu Board Service} {code : UInt8} (h : EndsThrough c d e code)
    {limit : Option Nat} (hlimit : 2 ≤ limit.getD Cpu.unlimited) :
    Cpu.run limit c = .ok ⟨2, .halted⟩ e := by
  have hcounting : Cpu.Counting (Installed config) := Installed.counting config
  have htwo : Cpu.stepUpTo 2 c = .ok () e := by
    rw [Cpu.stepUpTo_of_step h.started h.first, Cpu.stepUpTo_of_step h.running h.second]
    rfl
  rw [hcounting.run_of_halted hc htwo h.halted hlimit, h.steps, Nat.add_sub_cancel_left]

end Installed

namespace Machine

/-- Two steps of the machine, and no fewer, end its program. A run says so. -/
structure EndsInTwo (m : Machine Service) (code : UInt8) : Prop where
  started : m.cpu.halted = false
  steps : ∃ k l, Machine.step m = .ok () k ∧ k.cpu.halted = false ∧
    Machine.step k = .ok () l ∧ l.cpu.halted = true ∧ l.exitCode = some code
  run : ∀ limit : Option Nat, 2 ≤ (limit <|> m.config.stepLimit).getD Cpu.unlimited →
    ∃ l, runUntilHalt limit m = .ok ⟨2, .halted⟩ l ∧ l.cpu.halted = true ∧ l.exitCode = some code

theorem Sound.endsInTwo {m : Machine Service} (hm : m.Sound) (hprogram : ¬ m.program.isNone)
    {d e : Cpu Board Service} {code : UInt8} (h : EndsThrough m.cpu d e code) :
    m.EndsInTwo code := by
  refine ⟨h.started, ?_, fun limit hlimit => ?_⟩
  · exact ⟨⟨d, m.config, m.program⟩, ⟨e, m.config, m.program⟩, liftCpu_apply h.first, h.running,
      liftCpu_apply h.second, h.halted, h.exitCode⟩
  · have hrun := hm.installed.run_of_endsThrough h hlimit
    refine ⟨_, runUntilHalt_of_run hprogram hrun, ?_, ?_⟩
    · exact (Cpu.halted_note _ _ _ _).trans h.halted
    · exact (congrArg Board.exitCode (Cpu.memory_note _ _ _ _)).trans h.exitCode

end Machine

theorem Config.toNat_memoryKb {config : Config} (h : config.clamped = config) :
    config.memoryKb.toNat = max 64 (min 640 config.memoryKb.toNat) := by
  have hclamped := congrArg (fun c : Config => c.memoryKb.toNat) h
  simp only [clamped, UInt16.toNat_ofNat'] at hclamped
  omega

section Started

variable (c : Cpu Board Service) (segment : UInt16) {p : Program}
  (hfit : p.image.size ≤ imageLimit)
include hfit

theorem prefixed_startProgram {config : Config} (hc : Installed config c)
    (hclamped : config.clamped = config) :
    Prefixed (startProgram c segment p).memory segment
      (max 64 (min 640 config.memoryKb.toNat)) p.tail := by
  have hmemory := Config.toNat_memoryKb hclamped
  have hplaced := prefixed_placeProgram c.memory segment hfit (by rw [hc.memoryKb]; omega)
  rw [hc.memoryKb, hmemory] at hplaced
  rw [memory_startProgram]
  exact hplaced

theorem facing_startProgram {b : UInt8} (hb : p.image[0]? = some b) :
    (startProgram c segment p).facing 0 = b := by
  obtain ⟨hpos, hfirst⟩ := getElem?_eq_some_iff.mp hb
  have hbyte := getByte_placeProgram c.memory segment hfit hpos
  rw [if_pos (by decide), hfirst] at hbyte
  rw [Cpu.facing, memory_startProgram, regs_startProgram]
  exact hbyte

omit hfit in
theorem top_startProgram : (startProgram c segment p).top = 0 := by
  rw [Cpu.top, memory_startProgram, regs_startProgram]
  exact Bus.getWord_setWord _ _ _ _

end Started

/-- The prefix of a program is complete, and apart from the program. If that begins with a near
return, it ends in two steps. -/
theorem loaded_prefix_complete :
    (∀ (b : Board) (segment memoryTop : UInt16) (tail : String),
      Bus.Keeps segment 0x0100 0xFFFF b (buildPrefix b segment memoryTop tail)) ∧
    ∀ m : Machine Service, m.Reachable → ∀ (image : ByteArray) (tail : String),
      imageFault? image = none → ∃ k, Machine.load image tail m = .ok () k ∧
        Prefixed k.cpu.memory m.config.loadSegment (max 64 (min 640 m.config.memoryKb.toNat))
          tail ∧
        (image[0]? = some 0xC3 → k.EndsInTwo 0) := by
  refine ⟨keeps_buildPrefix, fun m hm image tail hfault => ?_⟩
  have hfit : image.size ≤ imageLimit := Machine.size_le_of_imageFault hfault
  have hload := Machine.load_of_imageFault hfault m tail
  have hprefixed := prefixed_startProgram m.cpu m.config.loadSegment (p := ⟨image, tail⟩) hfit
    hm.sound.installed hm.sound.clamped
  refine ⟨_, hload, hprefixed, fun hret => ?_⟩
  have hsound := Machine.KeepsSound.load image tail m hm.sound
  rw [Machine.after, hload] at hsound
  have hexit := hprefixed.exit
  obtain ⟨d, e, hends⟩ := hsound.installed.exists_endsThrough (halted_startProgram _ _ _)
    (facing_startProgram m.cpu _ hfit hret) (top_startProgram _ _) (by
      rw [regs_startProgram]
      exact hexit)
  exact hsound.endsInTwo Bool.false_ne_true hends

/-- A machine that is asked for less memory than it needs, and loads programs where the segment
wraps at the end of memory. -/
def Machine.tight : Machine Service :=
  .new { Config.standard with memoryKb := 16, loadSegment := 0xFFFF } .silent

/-- A tail of 201 bytes, which is cut within a letter. -/
def accented : String := "x" ++ String.ofList (List.replicate 100 'é')

theorem return_with_cut_tail :
    Machine.tight.Reachable ∧ imageFault? ⟨#[0xC3]⟩ = none ∧ accented.utf8ByteSize = 201 ∧
      ∃ k, Machine.load ⟨#[0xC3]⟩ accented Machine.tight = .ok () k ∧
        Prefixed k.cpu.memory 0xFFFF 64 accented ∧ k.EndsInTwo 0 := by
  have hreachable : Machine.tight.Reachable := .new _ _
  have hfault : imageFault? ⟨#[0xC3]⟩ = none := by decide
  obtain ⟨k, hload, hprefixed, hends⟩ := loaded_prefix_complete.2 _ hreachable _ accented hfault
  exact ⟨hreachable, hfault, by decide +kernel, k, hload, hprefixed, hends rfl⟩

end RealMode.Pc
