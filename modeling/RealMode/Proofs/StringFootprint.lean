import RealMode.Proofs.Footprint

/-! # Footprints of string instructions -/
namespace RealMode

def StringOp.stores : StringOp → Bool
  | movs | stos | ins => true
  | cmps | lods | scas | outs => false

namespace Cpu

variable {M H : Type}

theorem mem_elements {c : Cpu M H} {w : Width} (hw : w = .byte ∨ c.direction = .forward)
    {n i : Nat} (hi : i < n * w.bytes) :
    physical c.regs.es (c.direction.offset c.regs.di 1 i) ∈ c.elements w n := by
  cases w with
  | byte =>
    have hi : i < n := by simpa [Width.bytes] using hi
    exact c.cell_subset_elements .byte hi (List.mem_singleton.mpr rfl)
  | word =>
    have hforward : c.direction = .forward := by simpa using hw
    have hi : i / 2 < n := by
      simp only [Width.bytes] at hi
      omega
    apply c.cell_subset_elements .word hi
    rw [hforward]
    rcases Nat.mod_two_eq_zero_or_one i with heven | hodd
    · have hlow : Direction.forward.offset c.regs.di 1 i =
          Direction.forward.offset c.regs.di 2 (i / 2) := by
        apply UInt16.toNat_inj.mp
        simp only [Direction.toNat_offset_forward]
        omega
      rw [hlow]
      exact List.mem_cons_self ..
    · have hhigh : Direction.forward.offset c.regs.di 1 i =
          Direction.forward.offset c.regs.di 2 (i / 2) + 1 := by
        apply UInt16.toNat_inj.mp
        simp only [UInt16.toNat_add, Direction.toNat_offset_forward, UInt16.reduceToNat]
        omega
      rw [hhigh]
      exact List.mem_cons_of_mem _ (List.mem_singleton.mpr rfl)

/-- A fill upwards from its lowest byte covers the same elements in either direction. -/
theorem mem_elements_of_fill {c : Cpu M H} {start : UInt16} {n i : Nat} (hi : i < n)
    (hstart : start = match c.direction with
      | .forward => c.regs.di
      | .backward => c.regs.di - UInt16.ofNat (n - 1)) :
    physical c.regs.es (start + UInt16.ofNat i) ∈ c.elements .byte n := by
  subst hstart
  cases hd : c.direction with
  | forward =>
    dsimp only
    rw [Direction.add_ofNat, ← hd]
    exact mem_elements (.inl rfl) (by simpa [Width.bytes] using hi)
  | backward =>
    dsimp only
    rw [Direction.sub_add_ofNat _ hi, ← hd]
    exact mem_elements (.inl rfl) (by simp only [Width.bytes]; omega)

variable [Bus M]

/-- `k` elements have been stored, and nothing else but registers has changed. -/
structure Walked (F : Footprint) (w : Width) (k : Nat) (d c : Cpu M H) : Prop where
  within : d.Within F c
  es : d.regs.es = c.regs.es
  flags : d.flags = c.flags
  di : d.regs.di = c.direction.offset c.regs.di w.bytes k

namespace Walked

variable {F : Footprint} {w : Width} {n k : Nat} {c d : Cpu M H}

theorem zero (c : Cpu M H) : c.Walked F w 0 c := by
  constructor
  · exact .refl c
  · rfl
  · rfl
  · apply UInt16.toNat_inj.mp
    have hlt := c.regs.di.toNat_lt
    simp only [Direction.offset, toNat_ofInt, Int.natCast_zero, Int.mul_zero]
    omega

section Parts

variable (h : d.Walked F w k c)
include h

theorem portIn (port : UInt16) (v : Width) : (d.portIn port v).2.Walked F w k c := by
  have hwithin := h.within.portIn port v
  cases v
  · exact ⟨hwithin, h.es, h.flags, h.di⟩
  · exact ⟨hwithin, h.es, h.flags, h.di⟩

theorem advanceSource (v : Width) (j : Nat) : (d.advance .si v j).Walked F w k c :=
  ⟨h.within.advance .si v j, h.es, h.flags, h.di⟩

theorem advance : (d.advance .di w 1).Walked F w (k + 1) c := by
  have hdirection : d.direction = c.direction := by rw [direction, direction, h.flags]
  refine ⟨h.within.advance .di w 1, h.es, h.flags, ?_⟩
  show UInt16.ofInt (d.regs.di.toNat + d.direction.step w.bytes * (1 : Nat)) = _
  rw [h.di, hdirection]
  apply UInt16.toNat_inj.mp
  simp only [Direction.offset, toNat_ofInt, Int.natCast_add, Int.mul_add]
  omega

theorem writeElement (hF : c.elements w n ⊆ F.addresses) (hk : k < n) (v : UInt16) :
    (d.writeElement d.regs.es d.regs.di w v).Walked F w k c := by
  have hcell : cell d.regs.es d.regs.di w ⊆ F.addresses := by
    rw [h.es, h.di]
    exact List.Subset.trans (c.cell_subset_elements w hk) hF
  have hwithin := h.within.writeElement hcell v
  cases w
  · exact ⟨hwithin, h.es, h.flags, h.di⟩
  · exact ⟨hwithin, h.es, h.flags, h.di⟩

theorem single {op : StringOp} (hop : op.stores) (hF : c.elements w n ⊆ F.addresses) (hk : k < n)
    (segment : UInt16) : (op.single segment w d).Walked F w (k + 1) c := by
  cases op with
  | movs => exact ((h.writeElement hF hk _).advanceSource w 1).advance
  | stos => exact (h.writeElement hF hk _).advance
  | ins => exact ((h.portIn _ w).writeElement hF hk _).advance
  | _ => exact nomatch hop

end Parts

theorem nat_repeat (op : StringOp) (hop : op.stores) (hF : c.elements w n ⊆ F.addresses)
    (hk : k ≤ n) (segment : UInt16) :
    (Nat.repeat (op.single segment w) k c).Walked F w k c := by
  induction k with
  | zero => exact zero c
  | succ k ih => exact (ih (by omega)).single hop hF hk segment

end Walked

namespace Within

variable {F : Footprint} {c d : Cpu M H} {op : StringOp} {w : Width} {n : Nat}

theorem single_of_reads (h : d.Within F c) (hop : op.stores = false)
    (hcompare : op.isCompare → Flag.status ⊆ F.flags) (segment : UInt16) (w : Width) :
    (op.single segment w d).Within F c := by
  cases op with
  | cmps =>
    have hflags := (Flags.Touched.refl d.flags).subBorrow (hcompare rfl) w
    exact ((h.setFlags (hflags _ _ false)).advance .si w 1).advance .di w 1
  | lods => exact (h.setAccumulator w _).advance .si w 1
  | scas =>
    have hflags := (Flags.Touched.refl d.flags).subBorrow (hcompare rfl) w
    exact (h.setFlags (hflags _ _ false)).advance .di w 1
  | outs => exact (h.portOut _ w _).advance .si w 1
  | _ => exact nomatch hop

theorem single (hstore : op.stores → c.elements w 1 ⊆ F.addresses)
    (hcompare : op.isCompare → Flag.status ⊆ F.flags) (segment : UInt16) :
    (op.single segment w c).Within F c := by
  by_cases hop : op.stores
  · exact ((Walked.zero c).single hop (hstore hop) Nat.one_pos segment).within
  · exact (refl c).single_of_reads (Bool.eq_false_iff.mpr hop) hcompare segment w

theorem movsMass (hF : c.elements w n ⊆ F.addresses) (segment : UInt16) :
    (c.movsMass segment w n).Within F c := by
  unfold Cpu.movsMass
  dsimp only
  split
  next hbulk =>
    have hw : w = .byte ∨ c.direction = .forward := by
      simp only [Bool.or_eq_true, Bool.and_eq_true, decide_eq_true_eq] at hbulk
      rcases hbulk with hbyte | ⟨-, hforward⟩
      · exact .inl hbyte
      · exact .inr hforward
    have hcopy := (refl c).withMemory (Bus.Overwrites.refl.copy segment c.regs.si
      fun i hi => hF (mem_elements hw hi))
    exact (hcopy.advance .si w n).advance .di w n
  next => exact (Walked.nat_repeat .movs rfl hF (Nat.le_refl n) segment).within

theorem stosMass (hF : c.elements w n ⊆ F.addresses) : (c.stosMass w n).Within F c := by
  cases w with
  | byte =>
    have hfill := (refl c).withMemory (Bus.Overwrites.refl.fill (c.regs.get8 .al)
      fun i hi => hF (mem_elements_of_fill hi rfl))
    exact hfill.advance .di .byte n
  | word => exact (Walked.nat_repeat .stos rfl hF (Nat.le_refl n) 0).within

theorem lodsMass (segment : UInt16) (w : Width) (n : Nat) : (c.lodsMass segment w n).Within F c := by
  unfold Cpu.lodsMass
  by_cases hn : n = 0
  · rw [if_pos hn]
    exact refl c
  · have hreads : StringOp.lods.stores = false := rfl
    rw [if_neg hn]
    exact ((refl c).advance .si w (n - 1)).single_of_reads hreads
      (fun hcompare => nomatch hcompare) segment w

theorem mass (hstore : op.stores → c.elements w n ⊆ F.addresses)
    (hcompare : op.isCompare → Flag.status ⊆ F.flags) (segment : UInt16) (how : Repeat) :
    (op.mass segment w n how c).2.Within F c := by
  have hread (hop : op.stores = false) (e : Cpu M H) (he : e.Within F c) :
      (op.single segment w e).Within F c := he.single_of_reads hop hcompare segment w
  cases op with
  | movs => exact movsMass (hstore rfl) segment
  | stos => exact stosMass (hstore rfl)
  | lods => exact lodsMass segment w n
  | cmps | scas => exact (refl c).compareMass (hread rfl) how n 0
  | ins => exact (Walked.nat_repeat .ins rfl (hstore rfl) (Nat.le_refl n) segment).within
  | outs => exact (refl c).nat_repeat (hread rfl) n

theorem repeated (hstore : op.stores → c.elements w c.regs.cx.toNat ⊆ F.addresses)
    (hcompare : op.isCompare → c.regs.cx ≠ 0 → Flag.status ⊆ F.flags) (mnemonic : String)
    (segment : UInt16) (how : Repeat) :
    (op.repeated mnemonic segment w how c).Within F c := by
  unfold StringOp.repeated
  dsimp only
  by_cases hcount : c.regs.cx.toNat = 0
  · rw [if_pos hcount]
    exact refl c
  · rw [if_neg hcount]
    have hcx : c.regs.cx ≠ 0 := by
      intro hzero
      exact hcount (congrArg UInt16.toNat hzero)
    let e := c.note .cpu .trace fun _ => mnemonic ++ " x" ++ toString c.regs.cx.toNat
    have hmass : (op.mass segment w c.regs.cx.toNat how e).2.Within F e :=
      mass (c := e) (fun hop => hstore hop) (fun hop => hcompare hop hcx) segment how
    exact (hmass.trans ((refl c).note .cpu .trace _)).setReg .cx _

end Within
end Cpu
end RealMode
