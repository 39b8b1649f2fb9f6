import RealMode.Proofs.RepeatedMove
import RealMode.Proofs.ServedErrors

/-! # Repeated stores and loads -/
namespace RealMode

namespace Bus

variable {M : Type} [Bus M]

theorem read_series_of_value [LawfulMemory M] (address : Nat → Nat) (n : Nat) (v : UInt8) (m : M)
    (ha : ∀ i < n, address i < memorySize) {b : Nat} (hb : b < memorySize) :
    read (n.fold (fun i _ m => write m (address i) v) m) b =
      if ∃ i < n, address i = b then v else read m b := by
  induction n with
  | zero => simp
  | succ n ih =>
    rw [Nat.fold_succ, read_write _ _ (ha n (by omega)) hb, ih fun i hi => ha i (by omega)]
    by_cases hbn : b = address n
    · have hmet : ∃ i < n + 1, address i = b := ⟨n, by omega, hbn.symm⟩
      rw [if_pos hbn, if_pos hmet]
    · have hmet : (∃ i < n + 1, address i = b) ↔ ∃ i < n, address i = b := by
        constructor
        · rintro ⟨i, hi, hib⟩
          have hne : i ≠ n := fun h => hbn (h ▸ hib.symm)
          exact ⟨i, by omega, hib⟩
        · rintro ⟨i, hi, hib⟩
          exact ⟨i, by omega, hib⟩
      simp only [hbn, hmet, ↓reduceIte]

variable [LawfulBus M]

/-- In which order a value is written to its addresses makes no difference. -/
theorem series_eq_of_same_addresses {f g : Nat → Nat} {n : Nat} (v : UInt8) (m : M)
    (hf : ∀ i < n, f i < memorySize) (hg : ∀ i < n, g i < memorySize)
    (h : ∀ b, (∃ i < n, f i = b) ↔ ∃ i < n, g i = b) :
    n.fold (fun i _ m => write m (f i) v) m = n.fold (fun i _ m => write m (g i) v) m := by
  apply LawfulBus.ext
  · intro b hb
    rw [read_series_of_value f n v m hf hb, read_series_of_value g n v m hg hb]
    simp only [h b]
  · rw [LawfulBus.devices_series f fun _ _ _ => v, LawfulBus.devices_series g fun _ _ _ => v]

/-- A fill upwards from the lowest byte stores what single bytes store in the direction of the
string. -/
theorem fill_eq_storeEach (m : M) (segment offset : UInt16) (n : Nat) (v : UInt8)
    (d : Direction) :
    fill m segment (match d with
        | .forward => offset
        | .backward => offset - UInt16.ofNat (n - 1)) n v =
      n.fold (fun i _ m => setByte m segment (d.offset offset 1 i) v) m := by
  refine series_eq_of_same_addresses v m (fun _ _ => physical_lt _ _)
    (fun _ _ => physical_lt _ _) fun b => ?_
  cases d with
  | forward => simp only [Direction.add_ofNat]
  | backward =>
    -- Seen from below, the bytes come in the opposite order.
    constructor
    · rintro ⟨i, hi, rfl⟩
      exact ⟨n - 1 - i, by omega, by rw [Direction.sub_add_ofNat offset hi]⟩
    · rintro ⟨i, hi, rfl⟩
      refine ⟨n - 1 - i, by omega, ?_⟩
      rw [Direction.sub_add_ofNat offset (show n - 1 - i < n by omega)]
      congr 2
      omega

end Bus

namespace Cpu

variable {M H : Type}

section Registers

variable (c : Cpu M H) (w : Width)

theorem advance_zero (r : Reg16) : c.advance r w 0 = c := by
  simp only [advance, Int.natCast_zero, Int.mul_zero, Registers.adjust_zero]

theorem advance_advance (r : Reg16) (m n : Nat) :
    (c.advance r w m).advance r w n = c.advance r w (m + n) := by
  have hregs : ((c.advance r w m).advance r w n).regs =
      c.regs.adjust r (c.direction.step w.bytes * m + c.direction.step w.bytes * n) :=
    Registers.adjust_adjust c.regs r _ _
  simp only [advance] at hregs ⊢
  rw [Int.natCast_add, Int.mul_add, ← hregs]

theorem setAccumulator_advance (v : UInt16) (n : Nat) :
    (c.advance .si w n).setAccumulator w v = (c.setAccumulator w v).advance .si w n := by
  cases w <;> rfl

theorem setAccumulator_setAccumulator (u v : UInt16) :
    (c.setAccumulator w u).setAccumulator w v = c.setAccumulator w v := by
  cases w with
  | byte =>
    simp only [setAccumulator, setReg8, Registers.set8, Registers.get_set, Reg8.whole,
      Reg8.isHigh, ↓reduceIte, Bool.false_eq_true, highByte_wordOf, Registers.set_set]
  | word => rfl

end Registers

variable [Bus M]

def singly (c : Cpu M H) (op : StringOp) (segment : UInt16) (w : Width) : Cpu M H :=
  (Nat.repeat (op.single segment w) c.regs.cx.toNat c).setReg .cx 0

theorem lods_lods (c : Cpu M H) (segment : UInt16) (w : Width) :
    (c.lods segment w).lods segment w = (c.advance .si w 1).lods segment w := by
  have hread : (c.lods segment w).readElement segment (c.lods segment w).regs.si w =
      (c.advance .si w 1).readElement segment (c.advance .si w 1).regs.si w := by
    cases w <;> rfl
  rw [lods, hread, lods, lods, setAccumulator_advance, setAccumulator_advance,
    setAccumulator_setAccumulator]

theorem repeat_lods (c : Cpu M H) (segment : UInt16) (w : Width) (n : Nat) :
    Nat.repeat (fun c => c.lods segment w) (n + 1) c = (c.advance .si w n).lods segment w := by
  induction n with
  | zero =>
    rw [advance_zero]
    rfl
  | succ n ih => rw [Nat.repeat, ih, lods_lods, advance_advance]

theorem lodsMass_eq_repeat (c : Cpu M H) (segment : UInt16) (w : Width) (n : Nat) :
    c.lodsMass segment w n = Nat.repeat (fun c => c.lods segment w) n c := by
  cases n with
  | zero => rfl
  | succ n =>
    rw [repeat_lods]
    rfl

theorem repeat_stos_byte (c : Cpu M H) (n : Nat) :
    Nat.repeat (fun c => c.stos .byte) n c =
      { c with
        memory := n.fold (fun i _ m => Bus.setByte m c.regs.es (c.direction.offset c.regs.di 1 i)
          (c.regs.get8 .al)) c.memory }.advance .di .byte n := by
  induction n with
  | zero =>
    rw [advance_zero]
    rfl
  | succ n ih =>
    rw [Nat.repeat, ih, Nat.fold_succ, ← advance_advance]
    simp only [stos, accumulator, writeElement, lowByte_wordOfByte]
    rfl

theorem stosMass_eq_repeat [LawfulBus M] (c : Cpu M H) (w : Width) (n : Nat) :
    c.stosMass w n = Nat.repeat (fun c => c.stos w) n c := by
  cases w with
  | word => rfl
  | byte =>
    rw [repeat_stos_byte, ← Bus.fill_eq_storeEach]
    rfl

omit [Bus M] in
theorem repeat_keeps {α : Type} (view : Cpu M H → α) {f : Cpu M H → Cpu M H}
    (hf : ∀ c, view (f c) = view c) (n : Nat) (c : Cpu M H) :
    view (Nat.repeat f n c) = view c := by
  induction n with
  | zero => rfl
  | succ n ih => rw [Nat.repeat, hf, ih]

section Singly

variable {op : StringOp} (hkind : op = .stos ∨ op = .lods)
include hkind

theorem flags_singly (c : Cpu M H) (segment : UInt16) (w : Width) :
    (c.singly op segment w).flags = c.flags := by
  apply repeat_keeps Cpu.flags
  intro c
  obtain rfl | rfl := hkind
  · cases w <;> rfl
  · cases w <;> rfl

theorem ah_singly (c : Cpu M H) (segment : UInt16) :
    (c.singly op segment .byte).regs.get8 .ah = c.regs.get8 .ah := by
  apply repeat_keeps fun c => c.regs.get8 .ah
  intro c
  obtain rfl | rfl := hkind
  · rfl
  · exact Registers.get8_set8 c.regs .al .ah _

theorem mass_eq_repeat [LawfulBus M] (c : Cpu M H) (segment : UInt16) (w : Width) (n : Nat)
    (how : Repeat) :
    op.mass segment w n how c = (n, Nat.repeat (op.single segment w) n c) := by
  obtain rfl | rfl := hkind
  · exact congrArg (Prod.mk n) (c.stosMass_eq_repeat w n)
  · exact congrArg (Prod.mk n) (c.lodsMass_eq_repeat segment w n)

end Singly
end Cpu

namespace Instruction

variable {M H : Type} [Bus M]

theorem execute_of_repeated [HostService M H] {i : Instruction} {op : StringOp} {w : Width}
    {how : Repeat} (hop : i.op = .string op w) (hrep : i.repeated = some how) (c : Cpu M H) :
    i.execute c = .ok () (op.repeated i.op.mnemonic (i.source c) w how c) := by
  have hstring : (i.execute : Exec M H Unit) = i.executeString := by simp only [execute, hop]
  rw [hstring, executeString_of_repeated hop hrep]

variable [LawfulBus M] [HostService M H]

/-- A repeated STOS or LODS leaves the state of CX single ones, and CX zero; with CX zero it does
nothing. -/
theorem repeated_store_or_load_eq_singly (i : Instruction) {op : StringOp}
    (hkind : op = .stos ∨ op = .lods) {w : Width} {how : Repeat} (hop : i.op = .string op w)
    (hrep : i.repeated = some how) (c : Cpu M H) :
    ∃ d, i.execute c = .ok () d ∧
      (c.regs.cx = 0 → d = c) ∧
      (c.regs.cx ≠ 0 → d = (c.noteRepeat i).singly op (i.source c) w) ∧
      d.flags = c.flags ∧
      (w = .byte → d.regs.get8 .ah = c.regs.get8 .ah) := by
  refine ⟨_, execute_of_repeated hop hrep c, ?_⟩
  by_cases hcx : c.regs.cx = 0
  · have hrepeated : op.repeated i.op.mnemonic (i.source c) w how c = c := by
      rw [StringOp.repeated, hcx]
      rfl
    rw [hrepeated]
    exact ⟨fun _ => rfl, fun h => absurd hcx h, rfl, fun _ => rfl⟩
  · have hrepeated : op.repeated i.op.mnemonic (i.source c) w how c =
        (c.noteRepeat i).singly op (i.source c) w := by
      have hn : c.regs.cx.toNat ≠ 0 := fun h => hcx (UInt16.toNat_inj.mp h)
      simp only [StringOp.repeated, hn, ↓reduceIte, Cpu.mass_eq_repeat hkind, Nat.sub_self]
      rfl
    rw [hrepeated]
    refine ⟨fun h => absurd h hcx, fun _ => rfl, ?_, ?_⟩
    · exact Cpu.flags_singly hkind (c.noteRepeat i) _ w
    · rintro rfl
      exact Cpu.ah_singly hkind (c.noteRepeat i) _

/-- Three bytes that go down from the start of memory to its top. -/
def acrossMemoryTop : Registers :=
  { Registers.zero with ax := 0x1234, cx := 3, di := 0x0011, es := 0xFFFF }

def repStosb : Instruction := ⟨.string .stos .byte, [], some .rep, false, none, 2⟩

def backwards (r : Registers) (m : Ram) : Cpu Ram Empty :=
  ⟨r, Flags.reset.set .direction true, m, .empty, 0, false, .i8086, .silent⟩

theorem repeated_store_across_memory_top :
    repStosb.op = .string .stos .byte ∧ repStosb.repeated = some .rep ∧
      acrossMemoryTop.cx ≠ 0 ∧
      ∀ m : Ram, repStosb.execute (backwards acrossMemoryTop m) =
        .ok () (((backwards acrossMemoryTop m).noteRepeat repStosb).singly .stos 0 .byte) := by
  have hcx : acrossMemoryTop.cx ≠ 0 := by decide
  refine ⟨rfl, rfl, hcx, fun m => ?_⟩
  obtain ⟨d, hd, -, hsingly, -⟩ := repeated_store_or_load_eq_singly repStosb (.inl rfl) rfl rfl
    (backwards acrossMemoryTop m)
  rw [hd, hsingly hcx]
  rfl

end Instruction
end RealMode
