import RealMode.Proofs.SegmentedAccess
import RealMode.VectorTable

/-! # Entries of the vector table -/
namespace RealMode

def InEntry (vector : UInt8) (a : Nat) : Prop :=
  4 * vector.toNat ≤ a ∧ a < 4 * vector.toNat + 4

instance (vector : UInt8) (a : Nat) : Decidable (InEntry vector a) :=
  inferInstanceAs (Decidable (_ ∧ _))

theorem InEntry.lt {vector : UInt8} {a : Nat} (h : InEntry vector a) : a < 0x400 := by
  have hlt := vector.toNat_lt
  have hend := h.2
  omega

theorem InEntry.unique {v w : UInt8} {a : Nat} (hv : InEntry v a) (hw : InEntry w a) : v = w := by
  apply UInt8.toNat_inj.mp
  rcases hv with ⟨hv, hv'⟩
  rcases hw with ⟨hw, hw'⟩
  omega

theorem physical_vectorOffset (vector : UInt8) {k : UInt16} (hk : k.toNat < 4) :
    physical 0 (vectorOffset vector + k) = 4 * vector.toNat + k.toNat := by
  have hlt := vector.toNat_lt
  simp only [physical, memorySize, vectorOffset, UInt16.toNat_add, UInt16.toNat_ofNat']
  simp only [UInt16.toNat_zero]
  omega

theorem inEntry_physical (vector : UInt8) {k : UInt16} (hk : k.toNat < 4) :
    InEntry vector (physical 0 (vectorOffset vector + k)) := by
  rw [physical_vectorOffset vector hk]
  constructor <;> omega

section Bytes

variable {M : Type} [Bus M] {m k : M} {v w : UInt8} {p : FarPointer}

theorem readVector_congr (h : ∀ a, InEntry v a → Bus.read m a = Bus.read k a) :
    readVector m v = readVector k v := by
  have hbyte (i : UInt16) (hi : i.toNat < 4) : Bus.getByte m 0 (vectorOffset v + i) =
      Bus.getByte k 0 (vectorOffset v + i) := h _ (inEntry_physical v hi)
  have hsegment : Bus.getWord m 0 (vectorOffset v + 2) = Bus.getWord k 0 (vectorOffset v + 2) := by
    apply Bus.getWord_congr (hbyte 2 (by decide))
    rw [UInt16.add_assoc]
    exact hbyte 3 (by decide)
  have hoffset : Bus.getWord m 0 (vectorOffset v) = Bus.getWord k 0 (vectorOffset v) := by
    apply Bus.getWord_congr _ (hbyte 1 (by decide))
    rw [← UInt16.add_zero (vectorOffset v)]
    exact hbyte 0 (by decide)
  rw [readVector, readVector, hsegment, hoffset]

variable [LawfulMemory M]

theorem read_writeVector_of_not (p : FarPointer) {a : Nat} (ha : a < memorySize)
    (hout : ¬ InEntry w a) : Bus.read (writeVector m w p) a = Bus.read m a := by
  have hne {k : UInt16} (hk : k.toNat < 4) : a ≠ physical 0 (vectorOffset w + k) := by
    rintro rfl
    exact hout (inEntry_physical w hk)
  have h0 := hne (k := 0) (by decide)
  rw [UInt16.add_zero] at h0
  have h3 : a ≠ physical 0 (vectorOffset w + 2 + 1) := by
    rw [UInt16.add_assoc]
    exact hne (k := 3) (by decide)
  rw [writeVector, Bus.read_setWord_of_ne _ _ ha (hne (by decide)) h3,
    Bus.read_setWord_of_ne _ _ ha h0 (hne (by decide))]

theorem readVector_writeVector_self (m : M) (v : UInt8) (p : FarPointer) :
    readVector (writeVector m v p) v = p := by
  have hapart : Bus.getWord (writeVector m v p) 0 (vectorOffset v) = p.offset := by
    rw [writeVector, Bus.getWord_setWord_of_apart _ _ (by grind) (by grind) (by grind),
      Bus.getWord_setWord]
  rw [readVector, hapart, writeVector, Bus.getWord_setWord]

theorem readVector_writeVector_of_ne (p : FarPointer) (h : v ≠ w) :
    readVector (writeVector m w p) v = readVector m v := by
  apply readVector_congr
  intro a ha
  have hlt := ha.lt
  apply read_writeVector_of_not p (by simp only [memorySize]; omega)
  intro hw
  exact h (ha.unique hw)

end Bytes

section Installed

variable {M : Type} [Bus M] [LawfulMemory M]

theorem read_installVectors (m : M) {a : Nat} (ha : a < memorySize) (hout : 0x400 ≤ a) :
    Bus.read (installVectors m) a =
      if a = physical defaultSegment defaultOffset then iretOpcode else Bus.read m a := by
  have hfold (vs : List Nat) (k : M) : Bus.read (vs.foldl (fun m v =>
      writeVector m (UInt8.ofNat v) ⟨defaultSegment, defaultOffset⟩) k) a = Bus.read k a := by
    induction vs generalizing k with
    | nil => rfl
    | cons v vs ih =>
      rw [List.foldl_cons, ih, read_writeVector_of_not _ ha]
      intro h
      have hlt := h.lt
      omega
  rw [installVectors, hfold]
  exact Bus.read_write _ _ (physical_lt _ _) ha

theorem readVector_installVectors (m : M) (v : UInt8) :
    readVector (installVectors m) v = ⟨defaultSegment, defaultOffset⟩ := by
  have hfold (vs : List Nat) (k : M)
      (h : v.toNat ∈ vs ∨ readVector k v = ⟨defaultSegment, defaultOffset⟩) :
      readVector (vs.foldl (fun m v =>
        writeVector m (UInt8.ofNat v) ⟨defaultSegment, defaultOffset⟩) k) v =
          ⟨defaultSegment, defaultOffset⟩ := by
    induction vs generalizing k with
    | nil =>
      rcases h with h | h
      · exact nomatch h
      · exact h
    | cons w vs ih =>
      apply ih
      by_cases hw : v = UInt8.ofNat w
      · right
        rw [hw, readVector_writeVector_self]
      · rw [readVector_writeVector_of_ne _ hw]
        rcases h with h | h
        · left
          rcases List.mem_cons.mp h with rfl | h
          · exact absurd UInt8.ofNat_toNat.symm hw
          · exact h
        · exact .inr h
  exact hfold _ _ (.inl (List.mem_range.mpr v.toNat_lt))

theorem getByte_installVectors (m : M) :
    Bus.getByte (installVectors m) defaultSegment defaultOffset = iretOpcode := by
  have hout : 0x400 ≤ physical defaultSegment defaultOffset := by decide
  rw [Bus.getByte, read_installVectors m (physical_lt _ _) hout, if_pos rfl]

end Installed
end RealMode
