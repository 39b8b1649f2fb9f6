import RealMode.Proofs.BlockCopy

/-! # Overlapping copies -/
namespace RealMode

namespace Direction

def away (d : Direction) (a i : Nat) : Nat :=
  match d with
  | forward => a + i
  | backward => a - i

/-- How far `t` is ahead of `s`; zero if it is not ahead. -/
def lead (d : Direction) (s t : Nat) : Nat :=
  match d with
  | forward => t - s
  | backward => s - t

/-- `count` bytes from `a` on stay among the places below `size`. -/
def Fits (d : Direction) (size a count : Nat) : Prop :=
  match d with
  | forward => a + count ≤ size
  | backward => a < size ∧ count ≤ a + 1

instance (d : Direction) (size a count : Nat) : Decidable (d.Fits size a count) :=
  match d with
  | forward => inferInstanceAs (Decidable (_ ≤ _))
  | backward => inferInstanceAs (Decidable (_ ∧ _))

namespace Fits

variable {d : Direction} {size s t count i j : Nat}

theorem away_lt (h : d.Fits size s count) (hi : i < count) : d.away s i < size := by
  cases d <;> simp only [Fits, away] at h ⊢ <;> omega

theorem away_inj (h : d.Fits size s count) (hi : i < count) (hj : j < count)
    (heq : d.away s i = d.away s j) : i = j := by
  cases d <;> simp only [Fits, away] at h heq <;> omega

theorem mono (h : d.Fits size s count) {n : Nat} (hn : n ≤ count) : d.Fits size s n := by
  cases d <;> simp only [Fits] at h ⊢ <;> omega

theorem row (hs : d.Fits size s count) (ht : d.Fits size t count) :
    d.Fits size s (count + d.lead s t) := by
  cases d <;> simp only [Fits, lead] at hs ht ⊢ <;> omega

/-- A destination that does not start inside the source is not written before it is read. -/
theorem away_ne (hs : d.Fits size s count) (hlead : d.lead s t = 0 ∨ count ≤ d.lead s t)
    (hij : i < j) (hj : j < count) : d.away t i ≠ d.away s j := by
  cases d <;> simp only [Fits, lead, away] at hs hlead ⊢ <;> omega

end Fits

theorem away_eq_of_lead {d : Direction} {s t : Nat} (h : 0 < d.lead s t) (i : Nat) :
    d.away t i = d.away s (i + d.lead s t) := by
  cases d <;> simp only [lead, away] at h ⊢ <;> omega

/-- `count` bytes from an offset on wrap neither in the segment nor at the ends of memory. -/
structure Unwrapped (d : Direction) (segment offset : UInt16) (count : Nat) : Prop where
  inSegment : d.Fits 0x10000 offset.toNat count
  inMemory : d.Fits memorySize (physical segment offset) count

theorem Unwrapped.physical_eq {d : Direction} {segment offset : UInt16} {count i : Nat}
    (h : d.Unwrapped segment offset count) (hi : i < count) :
    physical segment (d.offset offset 1 i) = d.away (physical segment offset) i := by
  obtain ⟨hsegment, hmemory⟩ := h
  cases d with
  | forward => exact physical_eq_add hsegment hmemory hi
  | backward =>
    obtain ⟨hlt, hsegment⟩ := hsegment
    have hoffset : (backward.offset offset 1 i).toNat = offset.toNat - i := by
      simp only [Direction.offset, step, toNat_ofInt]
      omega
    simp only [Fits, physical, away, hoffset, memorySize] at hmemory ⊢
    omega

end Direction

namespace Bus

variable {M : Type} [Bus M]

theorem copyAlong_congr {src src' dst dst' : Nat → Nat} {n : Nat} (m : M)
    (hsrc : ∀ i < n, src i = src' i) (hdst : ∀ i < n, dst i = dst' i) :
    copyAlong src dst n m = copyAlong src' dst' n m := by
  induction n with
  | zero => rfl
  | succ n ih =>
    rw [copyAlong_succ, copyAlong_succ, hsrc n (by omega), hdst n (by omega),
      ih (fun i hi => hsrc i (by omega)) fun i hi => hdst i (by omega)]

section Lead

variable [LawfulMemory M] {d : Direction} {s t n i : Nat} (m : M)

/-- A copy to a place further on in the row that it reads finds there, again and again, the
bytes that it has started from. -/
theorem read_copyAlong_of_lead {lead : Nat} (hrow : d.Fits memorySize s (n + lead))
    (hlead : 0 < lead) (hi : i < n) :
    read (copyAlong (d.away s) (fun i => d.away s (i + lead)) n m) (d.away s (i + lead)) =
      read m (d.away s (i % lead)) := by
  have hdst : ∀ j < n, d.away s (j + lead) < memorySize := fun j hj => hrow.away_lt (by omega)
  induction i using Nat.strongRecOn generalizing n with
  | ind i ih =>
    have hlast : read (copyAlong (d.away s) (fun i => d.away s (i + lead)) n m)
          (d.away s (i + lead)) =
        read (copyAlong (d.away s) (fun i => d.away s (i + lead)) i m) (d.away s i) := by
      refine read_series_of_last _ (fun i _ m => read m (d.away s i)) m hi hdst ?_
      intro j hij hj heq
      have := hrow.away_inj (by omega) (by omega) heq
      omega
    rw [hlast]
    by_cases hfirst : i < lead
    · rw [Nat.mod_eq_of_lt hfirst]
      refine read_copyAlong_of_ne m (fun j hj => hdst j (by omega)) (hrow.away_lt (by omega)) ?_
      intro j hj heq
      have := hrow.away_inj (by omega) (by omega) heq
      omega
    -- The byte has been written `lead` moves before.
    · have hback : i = i - lead + lead := by omega
      have hwritten := ih (i - lead) (by omega) (hrow.mono (show i + lead ≤ n + lead by omega))
        (by omega) fun j hj => hdst j (by omega)
      rw [← hback] at hwritten
      rw [hwritten, ← Nat.mod_eq_sub_mod (by omega)]

/-- A copy to a place that does not lie ahead inside its source brings every byte as it was. -/
theorem read_copyAlong_of_no_lead (hs : d.Fits memorySize s n) (ht : d.Fits memorySize t n)
    (hlead : d.lead s t = 0 ∨ n ≤ d.lead s t) (hi : i < n) :
    read (copyAlong (d.away s) (d.away t) n m) (d.away t i) = read m (d.away s i) := by
  refine read_copyAlong_of_fresh m hi (hs.away_lt hi) (fun j hj => ht.away_lt hj) ?_ ?_
  · intro j hij hj heq
    have := ht.away_inj hj hi heq
    omega
  · intro j hj
    exact hs.away_ne hlead hj hi

end Lead

/-- Byte `i` of a copy holds what its source held, or where the destination starts inside the
source what one of the bytes between the two starts held; and no other byte changes. -/
theorem copy_repeats_overlap [LawfulBus M] (m : M) (d : Direction)
    {srcSegment srcOffset dstSegment dstOffset : UInt16} {count : Nat}
    (hsrc : d.Unwrapped srcSegment srcOffset count)
    (hdst : d.Unwrapped dstSegment dstOffset count) :
    let s := physical srcSegment srcOffset
    let t := physical dstSegment dstOffset
    let k := copy m srcSegment srcOffset dstSegment dstOffset count d
    (∀ i < count, read k (d.away t i) = read m (d.away s
      (if 0 < d.lead s t ∧ d.lead s t < count then i % d.lead s t else i))) ∧
    ∀ b < memorySize, (∀ i < count, d.away t i ≠ b) → read k b = read m b := by
  intro s t k
  have hk : k = copyAlong (d.away s) (d.away t) count m := by
    show copy m _ _ _ _ _ _ = _
    rw [copy_eq_copyEach, copyEach_eq_copyAlong]
    exact copyAlong_congr m (fun i hi => hsrc.physical_eq hi) fun i hi => hdst.physical_eq hi
  rw [hk]
  constructor
  · intro i hi
    split
    next hlead =>
      have hrow := hsrc.inMemory.row hdst.inMemory
      have hread := read_copyAlong_of_lead m hrow hlead.1 hi
      rw [← Direction.away_eq_of_lead hlead.1] at hread
      rw [← hread]
      congr 1
      exact copyAlong_congr m (fun _ _ => rfl) fun j _ => Direction.away_eq_of_lead hlead.1 j
    next hlead =>
      exact read_copyAlong_of_no_lead m hsrc.inMemory hdst.inMemory (by omega) hi
  · intro b hb hne
    exact read_copyAlong_of_ne m (fun i hi => hdst.inMemory.away_lt hi) hb hne

/-- Five bytes that are copied two bytes on repeat the first two. -/
theorem copy_two_bytes_on :
    Direction.forward.Unwrapped 0x1000 0 5 ∧ Direction.forward.Unwrapped 0x1000 2 5 ∧
      ∀ m : Ram, ∀ i < 5, read (copy m 0x1000 0 0x1000 2 5 .forward) (0x10002 + i) =
        read m (0x10000 + i % 2) := by
  have hsrc : Direction.forward.Unwrapped 0x1000 0 5 := ⟨by decide, by decide⟩
  have hdst : Direction.forward.Unwrapped 0x1000 2 5 := ⟨by decide, by decide⟩
  exact ⟨hsrc, hdst, fun m => (copy_repeats_overlap m .forward hsrc hdst).1⟩

end Bus
end RealMode
