import Mathlib.Data.List.DropRight
import RealMode.Pc.Service
import RealMode.Proofs.Pc.EndlessTerminal
import RealMode.Proofs.SegmentedAccess

/-! # Printed strings -/
namespace RealMode.Pc

namespace Transcript

def toList (t : Transcript) : List UInt8 := t.bytes.data.toList

/-- The transcript is the end of a list, as much of it as a transcript holds. -/
structure EndOf (t : Transcript) (s : List UInt8) : Prop where
  suffix : t.toList <:+ s
  length : t.toList.length = min s.length limit

theorem toList_eq (t : Transcript) : t.toList = t.stored.data.toList.rtake limit := by
  have hsize : t.stored.data.toList.length = t.stored.size := Array.length_toList
  have hrest : (t.stored.data.toList.drop (t.stored.size - limit)).length ≤
      t.stored.size - (t.stored.size - limit) := by
    rw [List.length_drop, hsize]
  rw [toList, bytes, lastBytes, ByteArray.data_extract, Array.toList_extract,
    List.extract_eq_take_drop, List.take_of_length_le hrest, List.rtake, hsize]

theorem rtake_rtake {α : Type} (l : List α) {m n : Nat} (h : n ≤ m) :
    (l.rtake m).rtake n = l.rtake n := by
  simp only [List.rtake_eq_reverse_take_reverse, List.reverse_reverse, List.take_take,
    Nat.min_eq_left h]

theorem rtake_append_singleton {α : Type} (l : List α) (a : α) (n : Nat) :
    (l.rtake n ++ [a]).rtake n = (l ++ [a]).rtake n := by
  cases n with
  | zero => rw [List.rtake_zero, List.rtake_zero]
  | succ n =>
    rw [List.rtake_concat_succ, List.rtake_concat_succ, rtake_rtake l (Nat.le_succ n)]

theorem toList_push (t : Transcript) (b : UInt8) :
    (t.push b).toList = (t.toList ++ [b]).rtake limit := by
  have hpush (bs : ByteArray) : (Transcript.mk (bs.push b)).toList =
      (bs.data.toList ++ [b]).rtake limit := by
    rw [toList_eq, ByteArray.data_push, Array.toList_push]
  unfold push
  split
  next => rw [hpush, toList_eq, rtake_append_singleton]
  next => rw [hpush, toList, bytes]

theorem toList_foldl_push (t : Transcript) (s : List UInt8) :
    (s.foldl push t).toList = (t.toList ++ s).rtake limit := by
  induction s using List.reverseRecOn with
  | nil => rw [List.foldl_nil, List.append_nil, toList_eq, rtake_rtake _ (Nat.le_refl _)]
  | append_singleton s b ih =>
    rw [List.foldl_concat, toList_push, ih, rtake_append_singleton, List.append_assoc]

theorem endOf_foldl_push (t : Transcript) (s : List UInt8) :
    (s.foldl push t).EndOf (t.toList ++ s) := by
  have hlist := toList_foldl_push t s
  constructor
  · rw [hlist]
    exact List.drop_suffix _ _
  · rw [hlist, List.rtake, List.length_drop]
    omega

theorem EndOf.eq {t : Transcript} {s : List UInt8} (h : t.EndOf s) (hs : s.length ≤ limit) :
    t.toList = s := by
  apply h.suffix.eq_of_length
  rw [h.length, Nat.min_eq_left hs]

end Transcript

namespace Board

theorem transcript_teletype (b : Board) (character : UInt8) :
    (b.teletype character).transcript = b.transcript.push character := rfl

theorem transcript_foldl_teletype (b : Board) (s : List UInt8) :
    (s.foldl teletype b).transcript = s.foldl Transcript.push b.transcript := by
  induction s generalizing b with
  | nil => rfl
  | cons character s ih => rw [List.foldl_cons, ih, transcript_teletype, List.foldl_cons]

def SegmentOffPage (segment : UInt16) : Prop := ∀ offset, OffPage (physical segment offset)

theorem getByte_teletype (b : Board) {segment : UInt16} (h : SegmentOffPage segment)
    (character : UInt8) (offset : UInt16) :
    Bus.getByte (b.teletype character) segment offset = Bus.getByte b segment offset :=
  b.read_onDisplay (·.teletype character) (physical_lt _ _) (h offset)

end Board

namespace Dos

/-- The bytes of a segment from an offset on, behind its end those from its start. -/
def bytesFrom (b : Board) (segment offset : UInt16) (count : Nat) : List UInt8 :=
  (List.range count).map fun i => Bus.getByte b segment (offset + UInt16.ofNat i)

/-- The bytes up to the first dollar sign, or the whole segment if there is none. -/
def stringAt (b : Board) (segment offset : UInt16) : List UInt8 :=
  (bytesFrom b segment offset 0x10000).takeWhile (· != terminator)

theorem bytesFrom_succ (b : Board) (segment offset : UInt16) (count : Nat) :
    bytesFrom b segment offset (count + 1) =
      Bus.getByte b segment offset :: bytesFrom b segment (offset + 1) count := by
  have hnext (i : Nat) : offset + UInt16.ofNat (i + 1) = offset + 1 + UInt16.ofNat i := by
    rw [UInt16.ofNat_add, UInt16.add_comm (UInt16.ofNat i), ← UInt16.add_assoc]
    rfl
  have hfirst : offset + UInt16.ofNat 0 = offset := UInt16.add_zero offset
  simp only [bytesFrom, List.range_succ_eq_map, List.map_cons, List.map_map, hfirst,
    Function.comp_def, Nat.succ_eq_add_one, hnext]

theorem bytesFrom_teletype (b : Board) {segment : UInt16} (h : Board.SegmentOffPage segment)
    (character : UInt8) (offset : UInt16) (count : Nat) :
    bytesFrom (b.teletype character) segment offset count = bytesFrom b segment offset count := by
  simp only [bytesFrom, b.getByte_teletype h]

/-- The bytes printed before a byte is read do not change it. -/
theorem printFrom_eq (b : Board) {segment : UInt16} (h : Board.SegmentOffPage segment)
    (offset : UInt16) (count : Nat) :
    printFrom b segment offset count =
      ((bytesFrom b segment offset count).takeWhile (· != terminator)).foldl Board.teletype b := by
  induction count generalizing b offset with
  | zero => rfl
  | succ count ih =>
    rw [bytesFrom_succ, printFrom]
    by_cases hend : Bus.getByte b segment offset = terminator
    · rw [if_pos hend, List.takeWhile_cons_of_neg (by simp [hend]), List.foldl_nil]
    · rw [if_neg hend, List.takeWhile_cons_of_pos (by simpa using hend), List.foldl_cons, ih,
        bytesFrom_teletype b h]

theorem serve_printString {c : Cpu Board Service} (hah : c.regs.get8 .ah = 0x09)
    (h : Board.SegmentOffPage c.regs.ds) :
    (serve c).regs = c.regs.set8 .al terminator ∧
      (serve c).memory = (stringAt c.memory c.regs.ds c.regs.dx).foldl Board.teletype c.memory := by
  let d := (c.note .bios .trace fun _ => callText c.regs).setFlag .carry false
  have hserve : serve c = printString d := by
    simp only [serve, hah]
    rfl
  rw [hserve]
  exact ⟨rfl, printFrom_eq c.memory h c.regs.dx 0x10000⟩

end Dos

/-- Function 09 of DOS prints the string at DS:DX and nothing else, and it always comes to an end.
The transcript is the end of what has been printed, by a call or in all. -/
theorem string_printed_exactly :
    (∀ c : Cpu Board Service, c.regs.get8 .ah = 0x09 → Board.SegmentOffPage c.regs.ds →
      let s := Dos.stringAt c.memory c.regs.ds c.regs.dx
      ∃ d, HostService.serve Service.dos c = .ok () d ∧
        d.regs = c.regs.set8 .al Dos.terminator ∧
        d.memory = s.foldl Board.teletype c.memory ∧
        d.memory.transcript.EndOf (c.memory.transcript.toList ++ s)) ∧
    ∀ (b : Board) (s : List UInt8), (s.foldl Board.teletype b.reset).transcript.EndOf s := by
  constructor
  · intro c hah happart s
    obtain ⟨hregs, hmemory⟩ := Dos.serve_printString hah happart
    refine ⟨Dos.serve c, rfl, hregs, hmemory, ?_⟩
    rw [hmemory, Board.transcript_foldl_teletype]
    exact Transcript.endOf_foldl_push _ s
  · intro b s
    rw [Board.transcript_foldl_teletype]
    exact Transcript.endOf_foldl_push .empty s

/-- A board with the string "Hi" around the end of segment 1000. -/
def greeting : Board :=
  let b := Bus.setByte (Board.new 640 false) 0x1000 0xFFFE 0x48
  Bus.setByte (Bus.setByte b 0x1000 0xFFFF 0x69) 0x1000 0x0000 Dos.terminator

theorem stringAt_greeting : Dos.stringAt greeting 0x1000 0xFFFE = [0x48, 0x69] := by
  have hfirst : Bus.getByte greeting 0x1000 0xFFFE = 0x48 := by
    simp [greeting, Bus.getByte_setByte]
  have hsecond : Bus.getByte greeting 0x1000 (0xFFFE + 1) = 0x69 := by
    simp [greeting, Bus.getByte_setByte]
  have hend : Bus.getByte greeting 0x1000 (0xFFFE + 1 + 1) = Dos.terminator := by
    simp [greeting, Bus.getByte_setByte]
  rw [Dos.stringAt, Dos.bytesFrom_succ, Dos.bytesFrom_succ, Dos.bytesFrom_succ, hfirst, hsecond,
    hend]
  rfl

theorem segmentOffPage_greeting : Board.SegmentOffPage 0x1000 := by
  intro offset
  have hlt := offset.toNat_lt
  left
  show (0x1000 * 16 + offset.toNat) % 0x100000 < 0xB8000
  omega

def greeter : Cpu Board Service :=
  ⟨{ Registers.zero with ax := 0x0900, dx := 0xFFFE, ds := 0x1000 }, .reset, greeting, .empty, 0,
    false, .i8086, .silent⟩

theorem greeting_printed :
    greeter.regs.get8 .ah = 0x09 ∧ Board.SegmentOffPage greeter.regs.ds ∧
      ∃ d, HostService.serve Service.dos greeter = .ok () d ∧ d.regs.get8 .al = 0x24 ∧
        d.memory.transcript.toList = [0x48, 0x69] := by
  have hah : greeter.regs.get8 .ah = 0x09 := by decide
  obtain ⟨d, hd, hregs, -, hend⟩ := string_printed_exactly.1 greeter hah segmentOffPage_greeting
  have hstring : Dos.stringAt greeter.memory greeter.regs.ds greeter.regs.dx = [0x48, 0x69] :=
    stringAt_greeting
  rw [hstring] at hend
  refine ⟨hah, segmentOffPage_greeting, d, hd, ?_, ?_⟩
  · rw [hregs, Registers.get8_set8, if_pos rfl]
    rfl
  · exact hend.eq (by decide)

end RealMode.Pc
