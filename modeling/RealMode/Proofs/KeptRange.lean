import RealMode.Proofs.RepeatedStore
import RealMode.Proofs.SegmentedAccess

/-! # Ranges of a segment

A series of writes through one segment is followed for one range of its bytes at a time.
-/
namespace RealMode

/-- The `n` bytes from `a` on end below `low` or begin behind `last`, and do not wrap. -/
def Misses (a : UInt16) (n : Nat) (low last : UInt16) : Prop :=
  a.toNat + n ≤ low.toNat ∨ last < a ∧ a.toNat + n ≤ 0x10000

instance (a : UInt16) (n : Nat) (low last : UInt16) : Decidable (Misses a n low last) :=
  inferInstanceAs (Decidable (_ ∨ _ ∧ _))

theorem Misses.ne {a low last o : UInt16} {n : Nat} (h : Misses a n low last) (hlow : low ≤ o)
    (hlast : o ≤ last) {i : Nat} (hi : i < n) : o ≠ a + UInt16.ofNat i := by
  rintro rfl
  have hbelow := low.toNat_lt
  rw [UInt16.le_iff_toNat_le, UInt16.toNat_add, UInt16.toNat_ofNat'] at hlow hlast
  rw [Misses, UInt16.lt_iff_toNat_lt] at h
  omega

theorem Misses.within {a low last : UInt16} {n : Nat} (h : Misses a n low last) {b : UInt16}
    {k : Nat} (hstart : a ≤ b) (hend : b.toNat + k ≤ a.toNat + n) : Misses b k low last := by
  rw [Misses, UInt16.lt_iff_toNat_lt] at h ⊢
  rw [UInt16.le_iff_toNat_le] at hstart
  omega

namespace Bus

variable {M : Type} [Bus M]

/-- Both memories have the same bytes from one offset of a segment up to another. -/
def Keeps (segment low last : UInt16) (m k : M) : Prop :=
  ∀ o : UInt16, low ≤ o → o ≤ last → getByte k segment o = getByte m segment o

variable {segment low last : UInt16} {m k l : M}

theorem getByte_of_getBytes {offset : UInt16} {n : Nat} {data : ByteArray}
    (h : getBytes m segment offset n = data) {i : Nat} {b : UInt8} (hb : data[i]? = some b) :
    getByte m segment (offset + UInt16.ofNat i) = b := by
  rw [← h] at hb
  obtain ⟨hlt, hget⟩ := getElem?_eq_some_iff.mp hb
  rwa [getElem_getBytes] at hget

theorem getBytes_setBytes [LawfulBus M] (m : M) (segment offset : UInt16) {data : ByteArray}
    (hsize : data.size ≤ 0x10000) :
    getBytes (setBytes m segment offset data) segment offset data.size = data := by
  refine ByteArray.ext_getElem (size_getBytes _ _ _ _) fun i hi hi' => ?_
  rw [getElem_getBytes, getByte_setBytes m segment offset hsize hi']

namespace Keeps

theorem refl : Keeps segment low last m m := fun _ _ _ => rfl

theorem trans (h : Keeps segment low last m k) (h' : Keeps segment low last k l) :
    Keeps segment low last m l :=
  fun o hlow hlast => (h' o hlow hlast).trans (h o hlow hlast)

theorem narrow (h : Keeps segment low last m k) {low' last' : UInt16} (hlow : low ≤ low')
    (hlast : last' ≤ last) : Keeps segment low' last' m k :=
  fun o hl hh => h o (UInt16.le_trans hlow hl) (UInt16.le_trans hh hlast)

theorem getWord (h : Keeps segment low last m k) {o : UInt16} (hlow : low ≤ o) (hlast : o < last) :
    Bus.getWord k segment o = Bus.getWord m segment o := by
  refine Bus.getWord_congr (h o hlow (UInt16.le_of_lt hlast)) (h (o + 1) ?_ ?_) <;> grind

theorem getBytes (h : Keeps segment low last m k) {o : UInt16} {n : Nat} (hlow : low ≤ o)
    (hlast : o.toNat + n ≤ last.toNat + 1) :
    Bus.getBytes k segment o n = Bus.getBytes m segment o n := by
  refine ByteArray.ext_getElem ?_ fun i hi hi' => ?_
  · rw [size_getBytes, size_getBytes]
  · rw [size_getBytes] at hi
    rw [getElem_getBytes, getElem_getBytes]
    have hend := last.toNat_lt
    have hplace : (o + UInt16.ofNat i).toNat = o.toNat + i := by
      rw [UInt16.toNat_add, UInt16.toNat_ofNat']
      omega
    rw [UInt16.le_iff_toNat_le] at hlow
    apply h <;> rw [UInt16.le_iff_toNat_le, hplace] <;> omega

variable (h : Keeps segment low last m k)
include h

section Series

variable [LawfulMemory M]

theorem setByte {a : UInt16} (ha : Misses a 1 low last) (v : UInt8) :
    Keeps segment low last m (Bus.setByte k segment a v) := by
  intro o hlow hlast
  have hne : o ≠ a := by simpa using ha.ne hlow hlast Nat.zero_lt_one
  rw [getByte_setByte, if_neg hne, h o hlow hlast]

theorem setWord {a : UInt16} (ha : Misses a 2 low last) (v : UInt16) :
    Keeps segment low last m (Bus.setWord k segment a v) := by
  intro o hlow hlast
  have hfirst : o ≠ a := by simpa using ha.ne hlow hlast Nat.two_pos
  have hsecond : o ≠ a + 1 := ha.ne hlow hlast Nat.one_lt_two
  rw [getByte_setWord, if_neg hsecond, if_neg hfirst, h o hlow hlast]

theorem fill {a : UInt16} {n : Nat} (ha : Misses a n low last) (v : UInt8) :
    Keeps segment low last m (Bus.fill k segment a n v) := by
  intro o hlow hlast
  refine Eq.trans ?_ (h o hlow hlast)
  refine (read_series_of_value (fun i => physical segment (a + UInt16.ofNat i)) n v k
    (fun _ _ => physical_lt _ _) (physical_lt _ _)).trans (if_neg ?_)
  rintro ⟨i, hi, heq⟩
  exact ha.ne hlow hlast hi (physical_inj.mp heq).symm

end Series

theorem setBytes [LawfulBus M] {a : UInt16} {data : ByteArray}
    (ha : Misses a data.size low last) :
    Keeps segment low last m (Bus.setBytes k segment a data) := by
  intro o hlow hlast
  refine Eq.trans ?_ (h o hlow hlast)
  rw [setBytes_eq_writeEach]
  refine read_series_of_ne (fun i => physical segment (a + UInt16.ofNat i)) (fun i hi _ => data[i])
    k (fun _ _ => physical_lt _ _) (physical_lt _ _) ?_
  intro i hi heq
  exact ha.ne hlow hlast hi (physical_inj.mp heq).symm

end Keeps
end Bus
end RealMode
