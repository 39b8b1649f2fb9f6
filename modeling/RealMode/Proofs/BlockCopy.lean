import RealMode.Proofs.LawfulBus

/-! # Copies

Moving bytes in pairs, both read before the first is written, differs from a copy byte by byte only
where the first target of a pair is its own second source.
-/
namespace RealMode

theorem physical_eq_add {segment offset : UInt16} {count i : Nat}
    (hs : offset.toNat + count ≤ 0x10000) (hm : physical segment offset + count ≤ memorySize)
    (hi : i < count) :
    physical segment (Direction.forward.offset offset 1 i) = physical segment offset + i := by
  simp only [physical, memorySize, Direction.toNat_offset_forward] at hm ⊢
  omega

namespace Bus

variable {M : Type} [Bus M]

def copyAlong (src dst : Nat → Nat) (n : Nat) (m : M) : M :=
  n.fold (fun i _ m => write m (dst i) (read m (src i))) m

def movePair (src dst : Nat → Nat) (i : Nat) (m : M) : M :=
  write (write m (dst (2 * i)) (read m (src (2 * i)))) (dst (2 * i + 1)) (read m (src (2 * i + 1)))

def copyPairs (src dst : Nat → Nat) (n : Nat) (m : M) : M :=
  n.fold (fun i _ m => movePair src dst i m) m

theorem copyAlong_succ (src dst : Nat → Nat) (n : Nat) (m : M) :
    copyAlong src dst (n + 1) m =
      write (copyAlong src dst n m) (dst n) (read (copyAlong src dst n m) (src n)) := by
  simp only [copyAlong, Nat.fold_succ]

theorem copyPairs_succ (src dst : Nat → Nat) (n : Nat) (m : M) :
    copyPairs src dst (n + 1) m = movePair src dst n (copyPairs src dst n m) := by
  simp only [copyPairs, Nat.fold_succ]

section Lawful

variable [LawfulMemory M] {src dst : Nat → Nat} (m : M)

theorem read_copyAlong_of_ne {n b : Nat} (hd : ∀ i < n, dst i < memorySize) (hb : b < memorySize)
    (hne : ∀ i < n, dst i ≠ b) : read (copyAlong src dst n m) b = read m b :=
  read_series_of_ne dst (fun i _ m => read m (src i)) m hd hb hne

/-- A target that is not written twice receives what its source held before anything was
written over it. -/
theorem read_copyAlong_of_fresh {n j : Nat} (hj : j < n) (hs : src j < memorySize)
    (hd : ∀ i < n, dst i < memorySize) (last : ∀ i, j < i → i < n → dst i ≠ dst j)
    (fresh : ∀ i < j, dst i ≠ src j) :
    read (copyAlong src dst n m) (dst j) = read m (src j) := by
  have h := read_series_of_last dst (fun i _ m => read m (src i)) m hj hd last
  refine h.trans ?_
  exact read_copyAlong_of_ne m (fun i hi => hd i (by omega)) hs fresh

/-- Pairs may be moved byte by byte where no pair is overwritten while it is read. -/
theorem copyPairs_eq_copyAlong {n : Nat} (hs : ∀ i < 2 * n, src i < memorySize)
    (hd : ∀ i < 2 * n, dst i < memorySize) (hne : ∀ i < n, dst (2 * i) ≠ src (2 * i + 1)) :
    copyPairs src dst n m = copyAlong src dst (2 * n) m := by
  induction n with
  | zero => rfl
  | succ n ih =>
    have hi := ih (fun i hi => hs i (by omega)) (fun i hi => hd i (by omega))
      (fun i hi => hne i (by omega))
    rw [copyPairs_succ, hi, Nat.mul_succ, copyAlong_succ, copyAlong_succ, movePair,
      read_write_of_ne _ _ (hd (2 * n) (by omega)) (hs (2 * n + 1) (by omega))
        (hne n (by omega)).symm]

end Lawful

theorem devices_copyAlong [LawfulBus M] (src dst : Nat → Nat) (n : Nat) (m : M) :
    LawfulBus.devices (copyAlong src dst n m) = LawfulBus.devices m :=
  LawfulBus.devices_series dst (fun i _ m => read m (src i)) m

theorem devices_writeBlock [LawfulBus M] (m : M) (data : ByteArray) {a : Nat}
    (ha : a < memorySize) : LawfulBus.devices (writeBlock m a data) = LawfulBus.devices m := by
  rw [LawfulBus.writeBlock_eq m data ha]
  exact LawfulBus.devices_series _ (fun i h _ => data[i]) m

theorem copyEach_eq_copyAlong (m : M) (srcSegment srcOffset dstSegment dstOffset : UInt16)
    (count : Nat) (d : Direction) :
    copyEach m srcSegment srcOffset dstSegment dstOffset count d =
      copyAlong (fun i => physical srcSegment (d.offset srcOffset 1 i))
        (fun i => physical dstSegment (d.offset dstOffset 1 i)) count m := rfl

theorem read_writeBlock_readBlock [LawfulBus M] (m : M) {s d count b : Nat}
    (hs0 : s < memorySize) (hs : s + count ≤ memorySize) (hd0 : d < memorySize)
    (hd : d + count ≤ memorySize) (hb : b < memorySize) :
    read (writeBlock m d (readBlock m s count)) b =
      if d ≤ b ∧ b < d + count then read m (s + (b - d)) else read m b := by
  have hsize : (readBlock m s count).size = count := by
    rw [LawfulBus.readBlock_eq m count hs0, size_tabulate]
  rw [LawfulBus.writeBlock_eq m _ hd0, read_writeEach m _ (by omega) hb]
  simp only [hsize]
  split
  next h =>
    have hm : (s + (b - d)) % memorySize = s + (b - d) := Nat.mod_eq_of_lt (by omega)
    simp only [LawfulBus.readBlock_eq m count hs0, getElem_tabulate, hm]
  next => rfl

/-- A block may be moved byte by byte unless it starts inside its own source. -/
theorem block_eq_copyAlong [LawfulBus M] (m : M) {s d count : Nat} {src dst : Nat → Nat}
    (hs0 : s < memorySize) (hs : s + count ≤ memorySize) (hd0 : d < memorySize)
    (hd : d + count ≤ memorySize)
    (hapart : d ≤ s ∨ s + count ≤ d) (hsrc : ∀ i < count, src i = s + i)
    (hdst : ∀ i < count, dst i = d + i) :
    writeBlock m d (readBlock m s count) = copyAlong src dst count m := by
  apply LawfulBus.ext
  · intro b hb
    have hlt : ∀ i < count, dst i < memorySize := fun i hi => by rw [hdst i hi]; omega
    rw [read_writeBlock_readBlock m hs0 hs hd0 hd hb]
    split
    next h =>
      have hj : b - d < count := by omega
      have hbj : b = dst (b - d) := by rw [hdst _ hj]; omega
      have hlt' : src (b - d) < memorySize := by rw [hsrc _ hj]; omega
      have hread := read_copyAlong_of_fresh m hj hlt' hlt
        (fun i h h' => by rw [hdst i h', hdst _ hj]; omega)
        (fun i h => by rw [hdst i (by omega), hsrc _ hj]; omega)
      rw [← hbj, hsrc _ hj] at hread
      exact hread.symm
    next h =>
      symm
      apply read_copyAlong_of_ne m hlt hb
      intro i hi
      rw [hdst i hi]
      omega
  · rw [devices_writeBlock m _ hd0, devices_copyAlong]

/-- A block copy gives what single bytes would give. -/
theorem copy_eq_copyEach [LawfulBus M] (m : M)
    (srcSegment srcOffset dstSegment dstOffset : UInt16) (count : Nat) (d : Direction) :
    copy m srcSegment srcOffset dstSegment dstOffset count d =
      copyEach m srcSegment srcOffset dstSegment dstOffset count d := by
  unfold copy
  split
  next h =>
    simp only [Bool.and_eq_true, decide_eq_true_eq, copiesAsBlock, Bool.or_eq_true,
      Bool.not_eq_true', wrapsSegment, decide_eq_false_iff_not] at h
    obtain ⟨rfl, ⟨⟨⟨hsw, hdw⟩, hsm⟩, hdm⟩, hapart⟩ := h
    have hs : ∀ i < count, _ := fun i => physical_eq_add (Nat.not_lt.mp hsw) hsm
    have hd : ∀ i < count, _ := fun i => physical_eq_add (Nat.not_lt.mp hdw) hdm
    exact block_eq_copyAlong m (physical_lt _ _) hsm (physical_lt _ _) hdm hapart hs hd
  next => rfl

end Bus
end RealMode
