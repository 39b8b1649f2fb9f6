import RealMode.VectorTable

/-! # Memories that cannot be told apart -/
namespace RealMode.Bus

structure Simulation {M N : Type} [Bus M] [Bus N] (R : M → N → Prop) : Prop where
  read : ∀ {m : M} {n : N}, R m n → ∀ a < memorySize, Bus.read m a = Bus.read n a
  write : ∀ {m : M} {n : N}, R m n → ∀ a < memorySize, ∀ v, R (Bus.write m a v) (Bus.write n a v)
  writeBlock : ∀ {m : M} {n : N}, R m n → ∀ a < memorySize, ∀ data,
    R (Bus.writeBlock m a data) (Bus.writeBlock n a data)

namespace Simulation

variable {M N : Type} {R : M → N → Prop} {m : M} {n : N}

section Loops

variable (h : R m n)
include h

theorem fold {count : Nat} {f : (i : Nat) → i < count → M → M} {g : (i : Nat) → i < count → N → N}
    (hstep : ∀ i hi k l, R k l → R (f i hi k) (g i hi l)) : R (count.fold f m) (count.fold g n) := by
  induction count with
  | zero => exact h
  | succ count ih =>
    rw [Nat.fold_succ, Nat.fold_succ]
    exact hstep count _ _ _ (ih fun i hi k l hkl => hstep i _ k l hkl)

theorem foldl {α : Type} {f : M → α → M} {g : N → α → N} (xs : List α)
    (hstep : ∀ x k l, R k l → R (f k x) (g l x)) : R (xs.foldl f m) (xs.foldl g n) := by
  induction xs generalizing m n with
  | nil => exact h
  | cons x xs ih => exact ih (hstep x m n h)

end Loops

variable [Bus M] [Bus N] (s : Simulation R) (h : R m n)
include s h

theorem getByte (segment offset : UInt16) :
    Bus.getByte m segment offset = Bus.getByte n segment offset :=
  s.read h _ (physical_lt ..)

theorem getWord (segment offset : UInt16) :
    Bus.getWord m segment offset = Bus.getWord n segment offset := by
  rw [Bus.getWord, Bus.getWord, s.getByte h, s.getByte h]

theorem setByte (segment offset : UInt16) (v : UInt8) :
    R (Bus.setByte m segment offset v) (Bus.setByte n segment offset v) :=
  s.write h _ (physical_lt ..) v

theorem setWord (segment offset v : UInt16) :
    R (Bus.setWord m segment offset v) (Bus.setWord n segment offset v) :=
  s.setByte (s.setByte h segment offset _) segment (offset + 1) _

theorem setBytes (segment offset : UInt16) (data : ByteArray) :
    R (Bus.setBytes m segment offset data) (Bus.setBytes n segment offset data) := by
  unfold Bus.setBytes
  split
  next => exact fold h fun _ _ _ _ hkl => s.setByte hkl segment _ _
  next => exact s.writeBlock h _ (physical_lt ..) data

theorem fill (segment offset : UInt16) (count : Nat) (v : UInt8) :
    R (Bus.fill m segment offset count v) (Bus.fill n segment offset count v) :=
  fold h fun _ _ _ _ hkl => s.setByte hkl segment _ v

theorem readVector (vector : UInt8) : RealMode.readVector m vector = RealMode.readVector n vector := by
  unfold RealMode.readVector
  dsimp only
  rw [s.getWord h, s.getWord h]

theorem writeVector (vector : UInt8) (p : FarPointer) :
    R (RealMode.writeVector m vector p) (RealMode.writeVector n vector p) :=
  s.setWord (s.setWord h 0 _ _) 0 _ _

theorem installVectors : R (RealMode.installVectors m) (RealMode.installVectors n) :=
  foldl (s.setByte h _ _ _) _ fun _ _ _ hkl => s.writeVector hkl _ _

end Simulation
end RealMode.Bus
