import Mathlib.Tactic.SplitIfs
import RealMode.Proofs.IntegerFlags
import RealMode.Proofs.RepeatedStore
import RealMode.Proofs.TouchedFlags

/-! # Repeated comparisons -/
namespace RealMode

/-- Of the `n` first places, `k` is the first where `P` holds, or the last one if it holds
nowhere. -/
structure StopsAt (P : Nat → Prop) (n k : Nat) : Prop where
  lt : k < n
  first : ∀ j < k, ¬ P j
  decided : P k ∨ k + 1 = n

def Repeat.Decides : Repeat → UInt16 × UInt16 → Prop
  | .rep, p => p.1 ≠ p.2
  | .repne, p => p.1 = p.2

instance (how : Repeat) (p : UInt16 × UInt16) : Decidable (how.Decides p) :=
  match how with
  | .rep => inferInstanceAs (Decidable (_ ≠ _))
  | .repne => inferInstanceAs (Decidable (_ = _))

theorem Direction.offset_zero (d : Direction) (start : UInt16) (size : Nat) :
    d.offset start size 0 = start := by
  apply UInt16.toNat_inj.mp
  have hlt := start.toNat_lt
  simp only [offset, toNat_ofInt]
  omega

namespace Flags

theorem bitAt_set (f : Flags) (a : Flag) (v : Bool) (n : Nat) :
    (f.set a v).bitAt n = if a.bit = n then v else f.bitAt n := by
  by_cases h : a.bit = n
  · rw [if_pos h, ← h, bitAt_set_self]
  · rw [if_neg h, bitAt_set_of_ne _ _ _ h]

/-- Of two comparisons only the second shows. -/
theorem sub_sub (f : Flags) (w : Width) (a b x y : UInt16) :
    ((f.sub w a b).2.sub w x y).2 = (f.sub w x y).2 := by
  apply ext_bitAt
  intro n _
  simp only [sub, subBorrow, ofResult, bitAt_set]
  split_ifs <;> rfl

theorem direction_sub (f : Flags) (w : Width) (a b : UInt16) :
    (f.sub w a b).2.get .direction = f.get .direction := by
  simp [sub, subBorrow, ofResult]

end Flags

namespace Cpu

variable {M H : Type}

section Passed

variable (c : Cpu M H) (op : StringOp) (w : Width)

/-- The state behind `n` pairs. SCAS takes only the second element of each from memory. -/
def passed (n : Nat) : Cpu M H :=
  match op with
  | .cmps => (c.advance .si w n).advance .di w n
  | _ => c.advance .di w n

theorem passed_passed (n : Nat) : (c.passed op w n).passed op w 1 = c.passed op w (n + 1) := by
  cases op with
  | cmps => exact c.moved_moved w n c.memory c.memory
  | movs | stos | lods | scas | ins | outs => exact c.advance_advance w .di n 1

theorem accumulator_passed (n : Nat) : (c.passed op w n).accumulator w = c.accumulator w := by
  cases op <;> cases w <;> rfl

theorem direction_setFlags {g : Flags} (h : g.get .direction = c.flags.get .direction) :
    (c.setFlags g).direction = c.direction := by
  simp only [direction, setFlags, h]

theorem advance_setFlags {g : Flags} (h : g.get .direction = c.flags.get .direction) (r : Reg16)
    (n : Nat) : (c.setFlags g).advance r w n = (c.advance r w n).setFlags g := by
  rw [advance, c.direction_setFlags h]
  rfl

theorem passed_setFlags {g : Flags} (h : g.get .direction = c.flags.get .direction) (n : Nat) :
    (c.setFlags g).passed op w n = (c.passed op w n).setFlags g := by
  cases op with
  | cmps =>
    rw [passed, c.advance_setFlags w h .si n]
    exact (c.advance .si w n).advance_setFlags w h .di n
  | movs | stos | lods | scas | ins | outs => exact c.advance_setFlags w h .di n

end Passed

variable [Bus M] (c : Cpu M H) (op : StringOp) (segment : UInt16) (w : Width)

def pair (k : Nat) : UInt16 × UInt16 :=
  (match op with
    | .cmps => c.readElement segment (c.direction.offset c.regs.si w.bytes k) w
    | _ => c.accumulator w,
    c.readElement c.regs.es (c.direction.offset c.regs.di w.bytes k) w)

def compared (k : Nat) : Cpu M H :=
  (c.passed op w (k + 1)).setFlags
    (c.flags.sub w (c.pair op segment w k).1 (c.pair op segment w k).2).2

theorem pair_passed (k : Nat) : (c.passed op w k).pair op segment w 0 = c.pair op segment w k := by
  simp only [pair, Direction.offset_zero, accumulator_passed]
  cases op <;> rfl

theorem pair_setFlags {g : Flags} (h : g.get .direction = c.flags.get .direction) (k : Nat) :
    (c.setFlags g).pair op segment w k = c.pair op segment w k := by
  simp only [pair, c.direction_setFlags h]
  rfl

theorem low_pair (k : Nat) :
    w.low (c.pair op segment w k).1 = (c.pair op segment w k).1.toNat ∧
      w.low (c.pair op segment w k).2 = (c.pair op segment w k).2.toNat := by
  have hbyte (b : UInt8) : Width.byte.low (wordOfByte b) = (wordOfByte b).toNat := by
    have hb := b.toNat_lt
    simp only [Width.low, Width.modulus, wordOfByte, UInt16.toNat_ofNat']
    omega
  have hword (v : UInt16) : Width.word.low v = v.toNat := Nat.mod_eq_of_lt v.toNat_lt
  cases w with
  | byte => exact ⟨by cases op <;> exact hbyte _, hbyte _⟩
  | word => exact ⟨hword _, hword _⟩

theorem zero_compared (k : Nat) :
    (c.compared op segment w k).flags.get .zero ↔
      (c.pair op segment w k).1 = (c.pair op segment w k).2 := by
  obtain ⟨ha, hb⟩ := c.low_pair op segment w k
  rw [← UInt16.toNat_inj, ← ha, ← hb]
  exact c.flags.zero_sub w _ _

theorem stops_compared (how : Repeat) (k : Nat) :
    (c.compared op segment w k).stops how ↔ how.Decides (c.pair op segment w k) := by
  have hzero := c.zero_compared op segment w k
  cases how with
  | rep => simp only [stops, Repeat.Decides, Bool.not_eq_true', ← Bool.not_eq_true, hzero, ne_eq]
  | repne => exact hzero

omit [Bus M] in
/-- From a state behind `done` pairs that decide nothing, the loop goes on to the first that
does. -/
theorem compareMass_repeat (compare : Cpu M H → Cpu M H) (how : Repeat) {count done : Nat}
    (hpos : 0 < count) (hfirst : ∀ j < done, ¬ (Nat.repeat compare (j + 1) c).stops how) :
    ∃ k, StopsAt (fun j => (Nat.repeat compare (j + 1) c).stops how) (done + count) k ∧
      compareMass compare how count done (Nat.repeat compare done c) =
        (k + 1, Nat.repeat compare (k + 1) c) := by
  induction count generalizing done with
  | zero => exact absurd hpos (Nat.lt_irrefl 0)
  | succ n ih =>
    rw [compareMass]
    by_cases hstop : (Nat.repeat compare (done + 1) c).stops how
    · exact ⟨done, ⟨by omega, hfirst, .inl hstop⟩, if_pos hstop⟩
    · cases n with
      | zero => exact ⟨done, ⟨by omega, hfirst, .inr rfl⟩, if_neg hstop⟩
      | succ n =>
        have hnext : ∀ j < done + 1, ¬ (Nat.repeat compare (j + 1) c).stops how := by
          intro j hj
          obtain hj | rfl := Nat.lt_succ_iff_lt_or_eq.mp hj
          · exact hfirst j hj
          · exact hstop
        obtain ⟨k, hk, hrun⟩ := ih (Nat.succ_pos n) hnext
        refine ⟨k, ?_, (if_neg hstop).trans hrun⟩
        rwa [Nat.add_right_comm done] at hk

section Comparison

variable {op} (hkind : op = .cmps ∨ op = .scas)
include hkind

theorem single_eq_compared : op.single segment w c = c.compared op segment w 0 := by
  have h := c.flags.direction_sub w (c.pair op segment w 0).1 (c.pair op segment w 0).2
  rw [compared, ← c.passed_setFlags op w h]
  simp only [pair, Direction.offset_zero]
  obtain rfl | rfl := hkind <;> rfl

theorem single_compared (k : Nat) :
    op.single segment w (c.compared op segment w k) = c.compared op segment w (k + 1) := by
  -- The first comparison has changed flags, but DF still leads to the next pair.
  have hflags : (c.passed op w (k + 1)).flags = c.flags := by
    obtain rfl | rfl := hkind <;> rfl
  have hdirection : (c.flags.sub w (c.pair op segment w k).1 (c.pair op segment w k).2).2.get
      .direction = (c.passed op w (k + 1)).flags.get .direction := by
    rw [hflags, Flags.direction_sub]
  have hpair : (c.compared op segment w k).pair op segment w 0 = c.pair op segment w (k + 1) := by
    rw [compared, pair_setFlags _ _ _ _ hdirection, pair_passed]
  rw [single_eq_compared _ _ _ hkind, compared, hpair, compared,
    passed_setFlags _ _ _ hdirection, passed_passed]
  exact congrArg _ (c.flags.sub_sub w _ _ _ _)

theorem repeat_single (k : Nat) :
    Nat.repeat (op.single segment w) (k + 1) c = c.compared op segment w k := by
  induction k with
  | zero => exact c.single_eq_compared segment w hkind
  | succ k ih => rw [Nat.repeat, ih, single_compared _ _ _ hkind]

theorem mass_comparison (how : Repeat) {n : Nat} (hn : 0 < n) :
    ∃ k, StopsAt (fun j => how.Decides (c.pair op segment w j)) n k ∧
      op.mass segment w n how c = (k + 1, c.compared op segment w k) := by
  have hstart : ∀ j < 0, ¬ (Nat.repeat (op.single segment w) (j + 1) c).stops how :=
    fun j hj => absurd hj (Nat.not_lt_zero j)
  obtain ⟨k, hk, hrun⟩ := c.compareMass_repeat (op.single segment w) how hn hstart
  simp only [repeat_single _ _ _ hkind, stops_compared, Nat.zero_add] at hk hrun
  refine ⟨k, hk, ?_⟩
  rw [← hrun]
  obtain rfl | rfl := hkind <;> rfl

end Comparison
end Cpu

namespace Instruction

variable {M H : Type} [Bus M] [HostService M H]

/-- A repeated CMPS or SCAS stops at the first pair that decides it, or at the last one. Nothing
but CX, the index registers and the flags changes, and with CX zero nothing at all. -/
theorem repeated_comparison_stops (i : Instruction) {op : StringOp}
    (hkind : op = .cmps ∨ op = .scas) {w : Width} {how : Repeat} (hop : i.op = .string op w)
    (hrep : i.repeated = some how) (c : Cpu M H) :
    ∃ d, i.execute c = .ok () d ∧
      (c.regs.cx = 0 → d = c) ∧
      (c.regs.cx ≠ 0 → ∃ k a b,
        StopsAt (fun j => how.Decides (c.pair op (i.source c) w j)) c.regs.cx.toNat k ∧
        c.pair op (i.source c) w k = (a, b) ∧
        d = { c.noteRepeat i with
          regs := { c.regs with
            cx := UInt16.ofNat (c.regs.cx.toNat - (k + 1))
            si := if op = .cmps then c.direction.offset c.regs.si w.bytes (k + 1) else c.regs.si
            di := c.direction.offset c.regs.di w.bytes (k + 1) }
          flags := (c.flags.sub w a b).2 } ∧
        (d.flags.get .zero ↔ a = b)) := by
  refine ⟨_, execute_of_repeated hop hrep c, ?_⟩
  by_cases hcx : c.regs.cx = 0
  · have hnothing : op.repeated i.op.mnemonic (i.source c) w how c = c := by
      rw [StringOp.repeated, hcx]
      rfl
    rw [hnothing]
    exact ⟨fun _ => rfl, fun h => absurd hcx h⟩
  · have hn : c.regs.cx.toNat ≠ 0 := fun h => hcx (UInt16.toNat_inj.mp h)
    obtain ⟨k, hk, hmass⟩ := (c.noteRepeat i).mass_comparison (i.source c) w hkind how
      (Nat.pos_of_ne_zero hn)
    have hleft : op.repeated i.op.mnemonic (i.source c) w how c =
        ((c.noteRepeat i).compared op (i.source c) w k).setReg .cx
          (UInt16.ofNat (c.regs.cx.toNat - (k + 1))) := by
      simp only [StringOp.repeated, hn, ↓reduceIte]
      exact congrArg (fun p => Cpu.setReg p.2 .cx (UInt16.ofNat (c.regs.cx.toNat - p.1))) hmass
    rw [hleft]
    refine ⟨fun h => absurd h hcx, fun _ => ⟨k, _, _, hk, rfl, ?_, ?_⟩⟩
    · obtain rfl | rfl := hkind <;> rfl
    · exact (c.noteRepeat i).zero_compared op (i.source c) w k

/-- A search for the letter d that goes down from the start of a segment to its end. -/
def belowSegmentStart : Registers :=
  { Registers.zero with ax := 0x0064, cx := 5, es := 0x2000 }

def repneScasb : Instruction := ⟨.string .scas .byte, [], some .repne, false, none, 2⟩

theorem direction_backwards (r : Registers) (m : Ram) : (backwards r m).direction = .backward := by
  simp [Cpu.direction, backwards]

theorem pair_repneScasb (m : Ram) (k : Nat) :
    (backwards belowSegmentStart m).pair .scas
        (repneScasb.source (backwards belowSegmentStart m)) .byte k =
      (0x64, wordOfByte (m.read (physical 0x2000 (Direction.backward.offset 0 1 k)))) := by
  simp only [Cpu.pair, direction_backwards]
  rfl

theorem search_across_segment_start :
    (StringOp.scas = .cmps ∨ StringOp.scas = .scas) ∧ repneScasb.op = .string .scas .byte ∧
      repneScasb.repeated = some .repne ∧
      ∃ d, repneScasb.execute (backwards belowSegmentStart (Ram.blank.write 0x2FFFF 0x64)) =
          .ok () d ∧
        d.regs = { belowSegmentStart with cx := 3, di := 0xFFFE } ∧ d.flags.get .zero := by
  have hread (a : Nat) (ha : a < memorySize) :
      (Ram.blank.write 0x2FFFF 0x64).read a = if a = 0x2FFFF then 0x64 else 0 :=
    Ram.read_blank_write (by decide) ha
  refine ⟨.inr rfl, rfl, rfl, ?_⟩
  obtain ⟨d, hd, -, hstops⟩ := repeated_comparison_stops repneScasb (.inr rfl) rfl rfl
    (backwards belowSegmentStart (Ram.blank.write 0x2FFFF 0x64))
  obtain ⟨k, a, b, hk, hpair, hleft, hzero⟩ := hstops (by decide)
  simp only [pair_repneScasb, hread _ (physical_lt _ _)] at hk hpair
  have hcx : (backwards belowSegmentStart (Ram.blank.write 0x2FFFF 0x64)).regs.cx.toNat = 5 := rfl
  have hone : k = 1 := by
    have hzeroth : k ≠ 0 := by
      rintro rfl
      exact absurd hk.decided (by rw [hcx]; decide)
    have hlater : ¬ 1 < k := fun h => hk.first 1 h (by decide)
    omega
  subst hone
  obtain ⟨rfl, rfl⟩ := Prod.mk.inj hpair
  refine ⟨d, hd, ?_, hzero.mpr (by decide)⟩
  rw [hleft]
  simp only [direction_backwards]
  rfl

end Instruction
end RealMode
