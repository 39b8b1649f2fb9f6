import RealMode.Proofs.BlockCopy

/-! # Colliding pairs

A pair collides when its first target is its own second source. A single mark at the place of the
collision then tells moving byte by byte from moving the pairs whole.
-/
namespace RealMode

structure Cyclic (address : Nat → Nat) : Prop where
  lt : ∀ i, address i < memorySize
  eq_iff : ∀ i j, address i = address j ↔ i % 0x10000 = j % 0x10000

def upwards (segment offset : UInt16) (i : Nat) : Nat :=
  physical segment (Direction.forward.offset offset 1 i)

theorem upwards_eq (segment offset : UInt16) (i : Nat) :
    upwards segment offset i =
      (segment.toNat * 16 + (offset.toNat + i) % 0x10000) % memorySize := by
  simp only [upwards, physical, Direction.toNat_offset_forward, Nat.one_mul]

theorem cyclic_upwards (segment offset : UInt16) : Cyclic (upwards segment offset) := by
  constructor
  · intro i
    exact physical_lt _ _
  · intro i j
    rw [upwards_eq, upwards_eq]
    unfold memorySize
    omega

section Neighbours

variable {segment offset target base : UInt16} {k : Nat}

/-- Both streams move together between two multiples of the paragraph size. -/
theorem meets_above (h : upwards target base k = upwards segment offset (k + 1))
    (hx : (offset.toNat + k + 1) % 16 ≤ 13) :
    upwards target base (k + 1) = upwards segment offset (k + 2) ∧
      upwards target base (k + 2) = upwards segment offset (k + 3) := by
  simp only [upwards_eq, memorySize] at h ⊢
  omega

theorem meets_below (h : upwards target base (k + 2) = upwards segment offset (k + 3))
    (hx : 2 ≤ (offset.toNat + k + 3) % 16) :
    upwards target base k = upwards segment offset (k + 1) ∧
      upwards target base (k + 1) = upwards segment offset (k + 2) := by
  simp only [upwards_eq, memorySize] at h ⊢
  omega

end Neighbours

namespace Bus

variable {M : Type} [Bus M]

/-- A single byte is one, all others are zero. -/
def Marked (m : M) (q : Nat) : Prop := ∀ a < memorySize, read m a = if a = q then 1 else 0

def Cleared (m : M) : Prop := ∀ a < memorySize, read m a = 0

section Lawful

variable [LawfulMemory M] {src dst : Nat → Nat} {m : M}

theorem read_movePair (hd : Cyclic dst) (i : Nat) {b : Nat} (hb : b < memorySize) :
    read (movePair src dst i m) b =
      if b = dst (2 * i + 1) then read m (src (2 * i + 1))
      else if b = dst (2 * i) then read m (src (2 * i)) else read m b := by
  unfold movePair
  rw [read_write _ _ (hd.lt _) hb, read_write _ _ (hd.lt _) hb]

theorem cleared_write (h : Cleared m) {a : Nat} (ha : a < memorySize) : Cleared (write m a 0) := by
  intro b hb
  rw [read_write m 0 ha hb, h b hb]
  split <;> rfl

theorem marked_write {q a : Nat} (h : Marked m q) (ha : a < memorySize) (hne : a ≠ q) :
    Marked (write m a 0) q := by
  intro b hb
  rw [read_write m 0 ha hb, h b hb]
  split
  next hba => rw [if_neg (hba ▸ hne)]
  next => rfl

theorem cleared_write_mark {q : Nat} (h : Marked m q) (hq : q < memorySize) :
    Cleared (write m q 0) := by
  intro b hb
  rw [read_write m 0 hq hb, h b hb]
  split <;> rfl

/-- A copy that neither reads nor writes the mark moves zeros over zeros. -/
theorem marked_copyAlong (hs : Cyclic src) (hd : Cyclic dst) {q : Nat} (h : Marked m q) (n : Nat)
    (hsq : ∀ i < n, src i ≠ q) (hdq : ∀ i < n, dst i ≠ q) :
    Marked (copyAlong src dst n m) q := by
  induction n with
  | zero => exact h
  | succ n ih =>
    have hn := ih (fun i hi => hsq i (by omega)) (fun i hi => hdq i (by omega))
    rw [copyAlong_succ, hn _ (hs.lt n), if_neg (hsq n (by omega))]
    exact marked_write hn (hd.lt n) (hdq n (by omega))

theorem marked_copyPairs (hs : Cyclic src) (hd : Cyclic dst) {q : Nat} (h : Marked m q) (n : Nat)
    (hsq : ∀ i < 2 * n, src i ≠ q) (hdq : ∀ i < 2 * n, dst i ≠ q) :
    Marked (copyPairs src dst n m) q := by
  induction n with
  | zero => exact h
  | succ n ih =>
    have hn := ih (fun i hi => hsq i (by omega)) (fun i hi => hdq i (by omega))
    rw [copyPairs_succ, movePair, hn _ (hs.lt _), hn _ (hs.lt _),
      if_neg (hsq (2 * n) (by omega)), if_neg (hsq (2 * n + 1) (by omega))]
    exact marked_write (marked_write hn (hd.lt _) (hdq _ (by omega))) (hd.lt _) (hdq _ (by omega))

theorem cleared_copyAlong (hs : Cyclic src) (hd : Cyclic dst) {k n : Nat} (hkn : k ≤ n)
    (h : Cleared (copyAlong src dst k m)) : Cleared (copyAlong src dst n m) := by
  induction n with
  | zero =>
    have : k = 0 := by omega
    subst k
    exact h
  | succ n ih =>
    by_cases hk : k = n + 1
    · subst k
      exact h
    · have hn := ih (by omega)
      rw [copyAlong_succ, hn _ (hs.lt n)]
      exact cleared_write hn (hd.lt n)

/-- Byte by byte, the first write of the colliding pair destroys the mark before it is read. -/
theorem cleared_of_collision (hs : Cyclic src) (hd : Cyclic dst) {j n : Nat} (hj : j < 0x8000)
    (hjn : j < n) (hc : dst (2 * j) = src (2 * j + 1)) (h : Marked m (dst (2 * j))) :
    Cleared (copyAlong src dst (2 * n) m) := by
  have hsq : ∀ i < 2 * j + 1, src i ≠ dst (2 * j) := by
    intro i hi
    rw [hc]
    exact fun he => by have := (hs.eq_iff _ _).mp he; omega
  have hdq : ∀ i < 2 * j, dst i ≠ dst (2 * j) := by
    intro i hi he
    have := (hd.eq_iff _ _).mp he
    omega
  have hm := marked_copyAlong hs hd h (2 * j) (fun i hi => hsq i (by omega)) hdq
  apply cleared_copyAlong hs hd (show 2 * j + 1 ≤ 2 * n by omega)
  rw [copyAlong_succ, hm _ (hs.lt _), if_neg (hsq _ (by omega))]
  exact cleared_write_mark hm (hd.lt _)

/-- The high byte of a pair stays where it was put until the segment has been gone through. -/
theorem read_copyPairs_high (hd : Cyclic dst) {i n : Nat} (hi : i < n)
    (hn : n ≤ i + 0x8000) :
    read (copyPairs src dst n m) (dst (2 * i + 1)) =
      read (copyPairs src dst i m) (src (2 * i + 1)) := by
  induction n with
  | zero => omega
  | succ n ih =>
    rw [copyPairs_succ, read_movePair hd n (hd.lt _)]
    by_cases hin : i = n
    · subst i
      rw [if_pos rfl]
    · have hh : dst (2 * i + 1) ≠ dst (2 * n + 1) := fun he => by
        have := (hd.eq_iff _ _).mp he
        omega
      have hl : dst (2 * i + 1) ≠ dst (2 * n) := fun he => by
        have := (hd.eq_iff _ _).mp he
        omega
      rw [if_neg hh, if_neg hl]
      exact ih (by omega) (by omega)

theorem read_copyPairs_low (hd : Cyclic dst) {i n : Nat} (hi : i < n)
    (hn : n ≤ i + 0x8000) :
    read (copyPairs src dst n m) (dst (2 * i)) = read (copyPairs src dst i m) (src (2 * i)) := by
  induction n with
  | zero => omega
  | succ n ih =>
    have hh : dst (2 * i) ≠ dst (2 * n + 1) := fun he => by
      have := (hd.eq_iff _ _).mp he
      omega
    rw [copyPairs_succ, read_movePair hd n (hd.lt _), if_neg hh]
    by_cases hin : i = n
    · subst i
      rw [if_pos rfl]
    · have hl : dst (2 * i) ≠ dst (2 * n) := fun he => by
        have := (hd.eq_iff _ _).mp he
        omega
      rw [if_neg hl]
      exact ih (by omega) (by omega)

/-- Moved whole, the colliding pair carries the mark to its second target. -/
theorem read_copyPairs_mark (hs : Cyclic src) (hd : Cyclic dst) {j n : Nat} (hj : j < 0x8000)
    (hjn : j < n) (hn : n ≤ j + 0x8000) (hc : dst (2 * j) = src (2 * j + 1))
    (h : Marked m (dst (2 * j))) : read (copyPairs src dst n m) (dst (2 * j + 1)) = 1 := by
  have hm := marked_copyPairs hs hd h j
    (fun i hi he => by rw [hc] at he; have := (hs.eq_iff _ _).mp he; omega)
    (fun i hi he => by have := (hd.eq_iff _ _).mp he; omega)
  rw [read_copyPairs_high hd hjn hn, ← hc, hm _ (hd.lt _), if_pos rfl]

/-- When the segment is gone through a second time, two neighbouring collisions keep the mark. -/
theorem read_copyPairs_mark_again (hs : Cyclic src) (hd : Cyclic dst) {j n : Nat}
    (hj : j + 1 + 0x8000 < n) (hn : n ≤ 0xFFFF) (hc : dst (2 * j) = src (2 * j + 1))
    (hlink : dst (2 * j + 1) = src (2 * (j + 1)))
    (hnext : dst (2 * (j + 1)) = src (2 * (j + 1) + 1)) (h : Marked m (dst (2 * j))) :
    read (copyPairs src dst n m) (dst (2 * (j + 1 + 0x8000) + 1)) = 1 := by
  have hagain : src (2 * (j + 1 + 0x8000) + 1) = dst (2 * (j + 1)) := by
    rw [hnext, hs.eq_iff]
    omega
  calc read (copyPairs src dst n m) (dst (2 * (j + 1 + 0x8000) + 1))
      = read (copyPairs src dst (j + 1 + 0x8000) m) (dst (2 * (j + 1))) := by
        rw [read_copyPairs_high hd hj (by omega), hagain]
    _ = read (copyPairs src dst (j + 1) m) (dst (2 * j + 1)) := by
        rw [read_copyPairs_low hd (by omega) (by omega), hlink]
    _ = 1 := read_copyPairs_mark hs hd (by omega) (by omega) (by omega) hc h

def Collides (src dst : Nat → Nat) (n : Nat) : Prop := ∃ i < n, dst (2 * i) = src (2 * i + 1)

instance (src dst : Nat → Nat) (n : Nat) : Decidable (Collides src dst n) :=
  inferInstanceAs (Decidable (∃ i < n, dst (2 * i) = src (2 * i + 1)))

variable (M src dst) in
/-- Some colliding pair moves its mark to where the remaining pairs leave it. -/
def MarkLasts (n : Nat) : Prop :=
  ∃ j < n, j < 0x8000 ∧ dst (2 * j) = src (2 * j + 1) ∧
    ∀ m : M, Marked m (dst (2 * j)) → ∃ a < memorySize, read (copyPairs src dst n m) a = 1

theorem mark_lasts_once (hs : Cyclic src) (hd : Cyclic dst) {j n : Nat} (hjn : j < n)
    (hj : j < 0x8000) (hn : n ≤ j + 0x8000) (hc : dst (2 * j) = src (2 * j + 1)) :
    MarkLasts M src dst n :=
  ⟨j, hjn, hj, hc, fun _ hm => ⟨_, hd.lt _, read_copyPairs_mark hs hd hj hjn hn hc hm⟩⟩

theorem mark_lasts_twice (hs : Cyclic src) (hd : Cyclic dst) {j n : Nat}
    (hj : j + 1 + 0x8000 < n) (hn : n ≤ 0xFFFF) (hc : dst (2 * j) = src (2 * j + 1))
    (hlink : dst (2 * j + 1) = src (2 * (j + 1)))
    (hnext : dst (2 * (j + 1)) = src (2 * (j + 1) + 1)) : MarkLasts M src dst n :=
  ⟨j, by omega, by omega, hc, fun _ hm =>
    ⟨_, hd.lt _, read_copyPairs_mark_again hs hd hj hn hc hlink hnext hm⟩⟩

/-- A pair that is moved only once keeps its mark itself. One that is moved again has a
neighbour that collides too, and either that one is moved once or the two keep the mark. -/
theorem mark_lasts {segment offset target base : UInt16} {n : Nat} (hn : n ≤ 0xFFFF)
    (h : Collides (upwards segment offset) (upwards target base) n) :
    MarkLasts M (upwards segment offset) (upwards target base) n := by
  have hs := cyclic_upwards segment offset
  have hd := cyclic_upwards target base
  obtain ⟨i₀, hi₀, hc₀⟩ := h
  obtain ⟨i, hin, hi, hc⟩ : ∃ i < n, i < 0x8000 ∧
      upwards target base (2 * i) = upwards segment offset (2 * i + 1) := by
    refine ⟨i₀ % 0x8000, by omega, by omega, ?_⟩
    calc upwards target base (2 * (i₀ % 0x8000))
        = upwards target base (2 * i₀) := by rw [hd.eq_iff]; omega
      _ = upwards segment offset (2 * i₀ + 1) := hc₀
      _ = upwards segment offset (2 * (i₀ % 0x8000) + 1) := by rw [hs.eq_iff]; omega
  by_cases hlast : n ≤ i + 0x8000
  · exact mark_lasts_once hs hd hin hi hlast hc
  by_cases hx : (offset.toNat + 2 * i + 1) % 16 ≤ 13
  · obtain ⟨hlink, hnext⟩ := meets_above hc hx
    by_cases hend : n ≤ i + 1 + 0x8000
    · exact mark_lasts_once hs hd (j := i + 1) (by omega) (by omega) hend hnext
    · exact mark_lasts_twice hs hd (by omega) hn hc hlink hnext
  · cases i with
    | zero =>
      have hc' : upwards target base (2 * 0x7FFF + 2) = upwards segment offset (2 * 0x7FFF + 3) :=
        ((hd.eq_iff _ _).mpr (by omega)).trans (hc.trans ((hs.eq_iff _ _).mpr (by omega)))
      exact mark_lasts_once hs hd (j := 0x7FFF) (by omega) (by omega) (by omega)
        (meets_below hc' (by omega)).1
    | succ j =>
      obtain ⟨hprev, hlink⟩ := meets_below (k := 2 * j) hc (by omega)
      exact mark_lasts_twice hs hd (by omega) hn hprev hlink hc

end Lawful

/-- Where a pair collides, there are contents that the two ways of moving treat differently. -/
theorem copyPairs_ne_copyAlong [LawfulBus M] (m₀ : M) {segment offset target base : UInt16}
    {n : Nat} (hn : n ≤ 0xFFFF) (h : Collides (upwards segment offset) (upwards target base) n) :
    ∃ m : M, copyPairs (upwards segment offset) (upwards target base) n m ≠
      copyAlong (upwards segment offset) (upwards target base) (2 * n) m := by
  obtain ⟨j, hjn, hj, hc, hlasts⟩ := mark_lasts (M := M) hn h
  obtain ⟨m, -, hm⟩ := LawfulBus.contents_exist m₀
    (fun a => if a = upwards target base (2 * j) then 1 else 0)
  obtain ⟨a, ha, hone⟩ := hlasts m hm
  refine ⟨m, fun he => ?_⟩
  have hzero := cleared_of_collision (cyclic_upwards _ _) (cyclic_upwards _ _) hj hjn hc hm a ha
  rw [← he, hone] at hzero
  exact absurd hzero (by decide)

end Bus
end RealMode
