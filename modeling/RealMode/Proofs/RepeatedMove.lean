import RealMode.Proofs.MoveCollision
import RealMode.StringOp

/-! # Repeated moves -/
namespace RealMode

namespace Bus

variable {M : Type} [Bus M]

def moveElement (m : M) (srcSegment srcOffset dstSegment dstOffset : UInt16) : Width → M
  | .byte => setByte m dstSegment dstOffset (getByte m srcSegment srcOffset)
  | .word => setWord m dstSegment dstOffset (getWord m srcSegment srcOffset)

def moveElements (m : M) (srcSegment srcOffset dstSegment dstOffset : UInt16) (w : Width)
    (d : Direction) (count : Nat) : M :=
  count.fold (fun i _ m => moveElement m srcSegment (d.offset srcOffset w.bytes i) dstSegment
    (d.offset dstOffset w.bytes i) w) m

theorem moveElements_byte (m : M) (srcSegment srcOffset dstSegment dstOffset : UInt16)
    (d : Direction) (count : Nat) :
    moveElements m srcSegment srcOffset dstSegment dstOffset .byte d count =
      copyEach m srcSegment srcOffset dstSegment dstOffset count d := rfl

theorem moveElement_word (m : M) (srcSegment srcOffset dstSegment dstOffset : UInt16) (i : Nat) :
    moveElement m srcSegment (Direction.forward.offset srcOffset 2 i) dstSegment
        (Direction.forward.offset dstOffset 2 i) .word =
      movePair (upwards srcSegment srcOffset) (upwards dstSegment dstOffset) i m := by
  have low (start : UInt16) :
      Direction.forward.offset start 2 i = Direction.forward.offset start 1 (2 * i) := by
    apply UInt16.toNat_inj.mp
    simp only [Direction.toNat_offset_forward]
    omega
  have high (start : UInt16) :
      Direction.forward.offset start 1 (2 * i) + 1 =
        Direction.forward.offset start 1 (2 * i + 1) := by
    apply UInt16.toNat_inj.mp
    simp only [UInt16.toNat_add, Direction.toNat_offset_forward, UInt16.reduceToNat]
    omega
  simp only [moveElement, setWord, getWord, lowByte_wordOf, highByte_wordOf, setByte, getByte,
    low, high, movePair, upwards]

theorem moveElements_word (m : M) (srcSegment srcOffset dstSegment dstOffset : UInt16)
    (count : Nat) :
    moveElements m srcSegment srcOffset dstSegment dstOffset .word .forward count =
      copyPairs (upwards srcSegment srcOffset) (upwards dstSegment dstOffset) count m := by
  simp only [moveElements, copyPairs, Width.bytes, moveElement_word]

end Bus

namespace Cpu

variable {M H : Type}

section Moved

variable (c : Cpu M H) (w : Width) (n : Nat) (m : M)

def moved : Cpu M H := ({ c with memory := m }.advance .si w n).advance .di w n

theorem si_moved : (c.moved w n m).regs.si = c.direction.offset c.regs.si w.bytes n := rfl

theorem di_moved : (c.moved w n m).regs.di = c.direction.offset c.regs.di w.bytes n := rfl

theorem moved_zero : c.moved w 0 m = { c with memory := m } := by
  simp only [moved, advance, Int.natCast_zero, Int.mul_zero, Registers.adjust_zero]

theorem moved_moved (k : M) : (c.moved w n m).moved w 1 k = c.moved w (n + 1) k := by
  have hx (s : Int) : s * n + s * (1 : Nat) = s * (n + 1 : Nat) := by
    rw [Int.natCast_add, Int.mul_add]
  have hr (r : Registers) (s : Int) :
      (((r.adjust .si (s * n)).adjust .di (s * n)).adjust .si (s * (1 : Nat))).adjust .di
          (s * (1 : Nat)) =
        (r.adjust .si (s * (n + 1 : Nat))).adjust .di (s * (n + 1 : Nat)) := by
    rw [Registers.adjust_comm _ _ _ (show Reg16.di ≠ Reg16.si by decide),
      Registers.adjust_adjust, Registers.adjust_adjust, hx]
  exact congrArg (fun r => { c with memory := k, regs := r }) (hr c.regs _)

end Moved

variable [Bus M]

/-- The elements CX counts, moved one by one. -/
def moveSingly (c : Cpu M H) (segment : UInt16) (w : Width) : Cpu M H :=
  (Nat.repeat (fun c => c.movs segment w) c.regs.cx.toNat c).setReg .cx 0

theorem movs_eq_moved (c : Cpu M H) (segment : UInt16) (w : Width) :
    c.movs segment w =
      c.moved w 1 (Bus.moveElement c.memory segment c.regs.si c.regs.es c.regs.di w) := by
  cases w <;>
    simp only [movs, moved, readElement, writeElement, Bus.moveElement, lowByte_wordOfByte]

theorem repeat_movs (c : Cpu M H) (segment : UInt16) (w : Width) (count : Nat) :
    Nat.repeat (fun c => c.movs segment w) count c =
      c.moved w count (Bus.moveElements c.memory segment c.regs.si c.regs.es c.regs.di w
        c.direction count) := by
  induction count with
  | zero =>
    rw [moved_zero]
    rfl
  | succ n ih =>
    rw [Nat.repeat, ih, movs_eq_moved, moved_moved, si_moved, di_moved, Bus.moveElements,
      Bus.moveElements, Nat.fold_succ]
    rfl

/-- Whether words move upwards in bulk although two of them collide. -/
def Collides (c : Cpu M H) (segment : UInt16) (w : Width) : Prop :=
  w = .word ∧ c.direction = .forward ∧
    apart (physical segment c.regs.si) (physical c.regs.es c.regs.di) (2 * c.regs.cx.toNat) ∧
    Bus.Collides (upwards segment c.regs.si) (upwards c.regs.es c.regs.di) c.regs.cx.toNat

instance (c : Cpu M H) (segment : UInt16) (w : Width) : Decidable (c.Collides segment w) :=
  inferInstanceAs (Decidable (_ ∧ _ ∧ _ ∧ _))

theorem movsMass_singly (c : Cpu M H) (segment : UInt16) {n : Nat}
    (h : ¬ (apart (physical segment c.regs.si) (physical c.regs.es c.regs.di) (2 * n) ∧
      c.direction = .forward)) :
    c.movsMass segment .word n = Nat.repeat (fun c => c.movs segment .word) n c := by
  have hn : n * Width.word.bytes = 2 * n := Nat.mul_comm n 2
  simp only [movsMass, hn]
  rw [if_neg]
  simpa using h

theorem repeat_movs_words (c : Cpu M H) (segment : UInt16) (n : Nat)
    (hd : c.direction = .forward) :
    Nat.repeat (fun c => c.movs segment .word) n c = c.moved .word n (Bus.copyPairs
      (upwards segment c.regs.si) (upwards c.regs.es c.regs.di) n c.memory) := by
  rw [repeat_movs, hd, Bus.moveElements_word]

variable [LawfulBus M]

theorem movsMass_byte (c : Cpu M H) (segment : UInt16) (n : Nat) :
    c.movsMass segment .byte n = Nat.repeat (fun c => c.movs segment .byte) n c := by
  rw [repeat_movs, Bus.moveElements_byte, ← Bus.copy_eq_copyEach]
  simp only [movsMass, decide_true, Bool.true_or, ↓reduceIte, Width.bytes, Nat.mul_one, moved]

theorem movsMass_bulk (c : Cpu M H) (segment : UInt16) {n : Nat}
    (ha : apart (physical segment c.regs.si) (physical c.regs.es c.regs.di) (2 * n))
    (hd : c.direction = .forward) :
    c.movsMass segment .word n = c.moved .word n (Bus.copyAlong (upwards segment c.regs.si)
      (upwards c.regs.es c.regs.di) (2 * n) c.memory) := by
  have hn : n * Width.word.bytes = 2 * n := Nat.mul_comm n 2
  simp only [movsMass, hn, ha, hd, decide_true, Bool.and_self, Bool.or_true, ↓reduceIte,
    Bus.copy_eq_copyEach, Bus.copyEach_eq_copyAlong]
  rfl

theorem movsMass_eq_repeat {c : Cpu M H} {segment : UInt16} {w : Width}
    (h : ¬ c.Collides segment w) :
    c.movsMass segment w c.regs.cx.toNat =
      Nat.repeat (fun c => c.movs segment w) c.regs.cx.toNat c := by
  cases w with
  | byte => exact movsMass_byte _ _ _
  | word =>
    by_cases hb : apart (physical segment c.regs.si) (physical c.regs.es c.regs.di)
        (2 * c.regs.cx.toNat) ∧ c.direction = .forward
    · obtain ⟨ha, hd⟩ := hb
      have hne : ∀ i < c.regs.cx.toNat,
          upwards c.regs.es c.regs.di (2 * i) ≠ upwards segment c.regs.si (2 * i + 1) :=
        fun i hi hc => h ⟨rfl, hd, ha, i, hi, hc⟩
      rw [movsMass_bulk _ _ ha hd, repeat_movs_words _ _ _ hd, Bus.copyPairs_eq_copyAlong _
        (fun i _ => (cyclic_upwards _ _).lt i) (fun i _ => (cyclic_upwards _ _).lt i) hne]
    · exact movsMass_singly _ _ hb

theorem movsMass_ne_repeat {c : Cpu M H} {segment : UInt16} {w : Width}
    (h : c.Collides segment w) :
    ∃ m : M, ({ c with memory := m }.movsMass segment w c.regs.cx.toNat).memory ≠
      (Nat.repeat (fun k : Cpu M H => k.movs segment w) c.regs.cx.toNat
        { c with memory := m }).memory := by
  obtain ⟨rfl, hd, ha, hc⟩ := h
  have hcx := c.regs.cx.toNat_lt
  obtain ⟨m, hne⟩ := Bus.copyPairs_ne_copyAlong c.memory (by omega) hc
  refine ⟨m, ?_⟩
  rw [movsMass_bulk { c with memory := m } _ ha hd,
    repeat_movs_words { c with memory := m } _ _ hd]
  exact hne.symm

def noteRepeat (c : Cpu M H) (i : Instruction) : Cpu M H :=
  c.note .cpu .trace fun _ => i.op.mnemonic ++ " x" ++ toString c.regs.cx.toNat

end Cpu

namespace Instruction

variable {M H : Type} [Bus M]

def source (i : Instruction) (c : Cpu M H) : UInt16 := c.regs.getSeg (i.override.getD .ds)

theorem executeString_of_repeated {i : Instruction} {op : StringOp} {w : Width} {how : Repeat}
    (hop : i.op = .string op w) (hrep : i.repeated = some how) (c : Cpu M H) :
    i.executeString c = .ok () (op.repeated i.op.mnemonic (i.source c) w how c) := by
  simp only [executeString, hop, hrep]
  rfl

theorem executeString_movs (i : Instruction) {w : Width} {how : Repeat}
    (hop : i.op = .string .movs w) (hrep : i.repeated = some how) (c : Cpu M H)
    (hcx : c.regs.cx ≠ 0) :
    i.executeString c = .ok () (((c.noteRepeat i).movsMass (i.source c) w
      c.regs.cx.toNat).setReg .cx 0) := by
  have hn : c.regs.cx.toNat ≠ 0 := fun h => hcx (UInt16.toNat_inj.mp h)
  have hsub : UInt16.ofNat (c.regs.cx.toNat - c.regs.cx.toNat) = 0 := by
    rw [Nat.sub_self]
    rfl
  have hmoved : StringOp.movs.repeated i.op.mnemonic (i.source c) w how c =
      ((c.noteRepeat i).movsMass (i.source c) w c.regs.cx.toNat).setReg .cx 0 := by
    simp only [StringOp.repeated, hn, ↓reduceIte, StringOp.mass, hsub]
    rfl
  rw [executeString_of_repeated hop hrep, hmoved]

/-- A mark at a collision is lost in bulk and kept singly. -/
theorem collision_loses_mark [LawfulBus M] (i : Instruction) {how : Repeat}
    (hop : i.op = .string .movs .word) (hrep : i.repeated = some how) {c : Cpu M H} {n : Nat}
    (hn : c.regs.cx.toNat = n) (hd : c.direction = .forward)
    (ha : Cpu.apart (physical (i.source c) c.regs.si) (physical c.regs.es c.regs.di) (2 * n))
    {j : Nat} (hj : j < 0x8000) (hjn : j < n) (hnj : n ≤ j + 0x8000)
    (hc : upwards c.regs.es c.regs.di (2 * j) = upwards (i.source c) c.regs.si (2 * j + 1))
    (hm : Bus.Marked c.memory (upwards c.regs.es c.regs.di (2 * j))) :
    ∃ c', i.executeString c = .ok () c' ∧
      Bus.read c'.memory (upwards c.regs.es c.regs.di (2 * j + 1)) = 0 ∧
      Bus.read ((c.noteRepeat i).moveSingly (i.source c) .word).memory
        (upwards c.regs.es c.regs.di (2 * j + 1)) = 1 := by
  subst hn
  have hs := cyclic_upwards (i.source c) c.regs.si
  have ht := cyclic_upwards c.regs.es c.regs.di
  have hcx : c.regs.cx ≠ 0 := fun h => by rw [h] at hjn; exact absurd hjn (Nat.not_lt_zero j)
  refine ⟨_, executeString_movs i hop hrep c hcx, ?_, ?_⟩
  · have hbulk := Cpu.movsMass_bulk (c.noteRepeat i) _ ha hd
    rw [hbulk]
    exact Bus.cleared_of_collision hs ht hj hjn hc hm _ (ht.lt _)
  · have hsingly := Cpu.repeat_movs_words (c.noteRepeat i) (i.source c) c.regs.cx.toNat hd
    unfold Cpu.moveSingly
    rw [show (c.noteRepeat i).regs.cx.toNat = c.regs.cx.toNat from rfl, hsingly]
    exact Bus.read_copyPairs_mark hs ht hj hjn hnj hc hm

/-- Two words that go up from FFFE in one segment to 000F in the one below. -/
def acrossSegmentEnd : Registers :=
  { Registers.zero with cx := 2, si := 0xFFFE, di := 0x000F, ds := 0x2000, es := 0x1FFF }

def repMovsw : Instruction := ⟨.string .movs .word, [], some .rep, false, none, 2⟩

def idle (r : Registers) (m : Ram) : Cpu Ram Unit :=
  ⟨r, .reset, m, .empty, 0, false, .i8086, .silent⟩

theorem memory_idle (r : Registers) (m : Ram) : (idle r m).memory = m := rfl

theorem regs_idle (r : Registers) (m : Ram) : (idle r m).regs = r := rfl

/-- A repeated MOVS moves the elements one by one, whatever memory holds, exactly where no two
words collide. -/
theorem repeated_move_eq_singly_iff [LawfulBus M] (i : Instruction) {w : Width} {how : Repeat}
    (hop : i.op = .string .movs w) (hrep : i.repeated = some how) (c : Cpu M H)
    (hcx : c.regs.cx ≠ 0) :
    (∀ m : M, i.executeString { c with memory := m } =
        .ok () (({ c with memory := m }.noteRepeat i).moveSingly (i.source c) w)) ↔
      ¬ c.Collides (i.source c) w := by
  constructor
  · intro h hc
    obtain ⟨m, hne⟩ := Cpu.movsMass_ne_repeat (c := c.noteRepeat i) hc
    apply hne
    have hm := h m
    rw [executeString_movs i hop hrep { c with memory := m } hcx] at hm
    injection hm with _ hm
    have hmem := congrArg Cpu.memory hm
    exact hmem
  · intro h m
    rw [executeString_movs i hop hrep { c with memory := m } hcx]
    have hm := Cpu.movsMass_eq_repeat (c := { c with memory := m }.noteRepeat i) h
    exact congrArg (fun k => EStateM.Result.ok () (Cpu.setReg k .cx 0)) hm

/-- Between segments that lie apart the words do not collide. -/
theorem repeated_move_between_segments :
    repMovsw.op = .string .movs .word ∧ repMovsw.repeated = some .rep ∧
      (idle { acrossSegmentEnd with es := 0x5000 } .blank).regs.cx ≠ 0 ∧
      ∀ m : Ram, repMovsw.executeString (idle { acrossSegmentEnd with es := 0x5000 } m) =
        .ok () (((idle { acrossSegmentEnd with es := 0x5000 } m).noteRepeat repMovsw).moveSingly
          0x2000 .word) :=
  ⟨rfl, rfl, by decide, (repeated_move_eq_singly_iff repMovsw rfl rfl
    (idle { acrossSegmentEnd with es := 0x5000 } .blank) (by decide)).mpr (by decide)⟩

/-- The second word is written over its own high byte before that is read: in bulk a zero
arrives at 20002, singly the one that was at 20001. -/
theorem words_across_segment_end_differ :
    ∃ c, repMovsw.executeString (idle acrossSegmentEnd (Ram.blank.write 0x20001 1)) = .ok () c ∧
      c.memory.read 0x20002 = 0 ∧
      (((idle acrossSegmentEnd (Ram.blank.write 0x20001 1)).noteRepeat repMovsw).moveSingly
        0x2000 .word).memory.read 0x20002 = 1 := by
  have hread : upwards acrossSegmentEnd.es acrossSegmentEnd.di (2 * 1 + 1) = 0x20002 := by decide
  have hmark : upwards acrossSegmentEnd.es acrossSegmentEnd.di (2 * 1) = 0x20001 := by decide
  have hm : Bus.Marked (Ram.blank.write 0x20001 1) 0x20001 :=
    fun _ ha => Ram.read_blank_write (by decide) ha
  have h := collision_loses_mark repMovsw rfl rfl (n := 2) (j := 1)
    (c := idle acrossSegmentEnd (Ram.blank.write 0x20001 1)) (by rfl) (by rfl) (by decide)
    (by decide) (by decide) (by decide) (by decide)
    (by rw [memory_idle, regs_idle, hmark]; exact hm)
  rw [regs_idle, hread] at h
  exact h

end Instruction
end RealMode
