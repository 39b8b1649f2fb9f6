import RealMode.Proofs.LawfulBus

/-! # Access within a segment

The bytes of a segment are an array of 65536 bytes, wherever offsets wrap.
-/
namespace RealMode

theorem physical_inj {segment a b : UInt16} : physical segment a = physical segment b ↔ a = b := by
  constructor
  · intro h
    have ha := a.toNat_lt
    have hb := b.toNat_lt
    apply UInt16.toNat_inj.mp
    simp only [physical, memorySize] at h
    omega
  · rintro rfl
    rfl

theorem physical_add {segment offset : UInt16} {i : Nat} (h : offset.toNat + i < 0x10000) :
    physical segment (offset + UInt16.ofNat i) = (physical segment offset + i) % memorySize := by
  simp only [physical, memorySize, UInt16.toNat_add, UInt16.toNat_ofNat']
  omega

theorem offset_add_inj {offset : UInt16} {i j : Nat} (hi : i < 0x10000) (hj : j < 0x10000) :
    offset + UInt16.ofNat i = offset + UInt16.ofNat j ↔ i = j := by
  constructor
  · intro h
    have htoNat := congrArg UInt16.toNat h
    simp only [UInt16.toNat_add, UInt16.toNat_ofNat'] at htoNat
    omega
  · rintro rfl
    rfl

theorem writeEach_congr {M : Type} (write : M → Nat → UInt8 → M) {f g : Nat → Nat}
    {data : ByteArray} (m : M) (h : ∀ i < data.size, f i = g i) :
    writeEach write f data m = writeEach write g data m := by
  unfold writeEach
  have hfold (n : Nat) (hn : n ≤ data.size) :
      n.fold (fun i hi m => write m (f i) (data.get i (Nat.lt_of_lt_of_le hi hn))) m =
        n.fold (fun i hi m => write m (g i) (data.get i (Nat.lt_of_lt_of_le hi hn))) m := by
    induction n with
    | zero => rfl
    | succ n ih => rw [Nat.fold_succ, Nat.fold_succ, ih (by omega), h n (by omega)]
  exact hfold data.size (Nat.le_refl _)

namespace Bus

variable {M : Type} [Bus M]

theorem getByte_setByte [LawfulMemory M] (m : M) (segment offset k : UInt16) (v : UInt8) :
    getByte (setByte m segment offset v) segment k =
      if k = offset then v else getByte m segment k := by
  unfold getByte setByte
  rw [read_write m v (physical_lt _ _) (physical_lt _ _)]
  simp only [physical_inj]

theorem getByte_setWord [LawfulMemory M] (m : M) (segment offset k v : UInt16) :
    getByte (setWord m segment offset v) segment k =
      if k = offset + 1 then highByte v
      else if k = offset then lowByte v else getByte m segment k := by
  rw [setWord, getByte_setByte, getByte_setByte]

theorem getWord_congr {m k : M} {segment offset : UInt16}
    (hlow : getByte m segment offset = getByte k segment offset)
    (hhigh : getByte m segment (offset + 1) = getByte k segment (offset + 1)) :
    getWord m segment offset = getWord k segment offset := by
  rw [getWord, getWord, hlow, hhigh]

section Words

variable [LawfulMemory M] (m : M)

theorem getWord_setWord (segment offset v : UInt16) :
    getWord (setWord m segment offset v) segment offset = v := by
  have hne : offset ≠ offset + 1 := by grind
  rw [getWord, getByte_setWord, getByte_setWord, if_pos rfl, if_neg hne, if_pos rfl,
    wordOf_lowByte_highByte]

theorem getWord_setWord_of_apart {segment offset k : UInt16} (v : UInt16) (hsame : k ≠ offset)
    (habove : k ≠ offset + 1) (hbelow : k + 1 ≠ offset) :
    getWord (setWord m segment offset v) segment k = getWord m segment k := by
  have hnext : k + 1 ≠ offset + 1 := fun h => hsame ((UInt16.add_left_inj 1).mp h)
  apply getWord_congr
  · rw [getByte_setWord, if_neg habove, if_neg hsame]
  · rw [getByte_setWord, if_neg hnext, if_neg hbelow]

theorem read_setWord_of_ne {segment offset : UInt16} (v : UInt16) {a : Nat} (ha : a < memorySize)
    (hlow : a ≠ physical segment offset) (hhigh : a ≠ physical segment (offset + 1)) :
    read (setWord m segment offset v) a = read m a := by
  rw [setWord, setByte, setByte, read_write_of_ne _ _ (physical_lt _ _) ha hhigh,
    read_write_of_ne _ _ (physical_lt _ _) ha hlow]

end Words

/-- A block goes byte by byte to the offsets that follow each other in the segment. -/
theorem setBytes_eq_writeEach [LawfulBus M] (m : M) (segment offset : UInt16)
    (data : ByteArray) :
    setBytes m segment offset data =
      writeEach write (fun i => physical segment (offset + UInt16.ofNat i)) data m := by
  unfold setBytes
  split
  next => rfl
  next h =>
    simp only [wrapsSegment, decide_eq_true_eq, Nat.not_lt] at h
    rw [LawfulBus.writeBlock_eq m data (physical_lt _ _)]
    apply writeEach_congr
    intro i hi
    rw [physical_add (by omega)]

theorem getByte_setBytes [LawfulBus M] (m : M) (segment offset : UInt16) {data : ByteArray}
    (hsize : data.size ≤ 0x10000) {i : Nat} (hi : i < data.size) :
    getByte (setBytes m segment offset data) segment (offset + UInt16.ofNat i) = data[i] := by
  rw [setBytes_eq_writeEach]
  refine read_series_of_last (fun i => physical segment (offset + UInt16.ofNat i))
    (fun i h _ => data[i]) m hi (fun _ _ => physical_lt _ _) ?_
  intro j hij hj h
  have hji := (offset_add_inj (by omega) (by omega)).mp (physical_inj.mp h)
  omega

theorem size_getBytes (m : M) (segment offset : UInt16) (count : Nat) :
    (getBytes m segment offset count).size = count := size_tabulate _ _

theorem getElem_getBytes (m : M) (segment offset : UInt16) (count : Nat) {i : Nat}
    (h : i < (getBytes m segment offset count).size) :
    (getBytes m segment offset count)[i] = getByte m segment (offset + UInt16.ofNat i) :=
  getElem_tabulate _ _ i h

end Bus
end RealMode
