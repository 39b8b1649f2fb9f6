import RealMode.Proofs.BlockCopy
import RealMode.Width

/-! # Memory that is written at some addresses only -/
namespace RealMode

/-- The addresses of an element of memory, whose second byte may be at the start of the segment. -/
def cell (segment offset : UInt16) : Width → List Nat
  | .byte => [physical segment offset]
  | .word => [physical segment offset, physical segment (offset + 1)]

section Memory

variable {M : Type} [Bus M]

/-- What accesses over the bus can make of a memory whose writes go to the addresses `S` only. -/
inductive Bus.Overwrites (S : List Nat) (m : M) : M → Prop where
  | refl : Overwrites S m m
  | setByte {k : M} (h : Overwrites S m k) {segment offset : UInt16}
      (ha : physical segment offset ∈ S) (v : UInt8) :
    Overwrites S m (Bus.setByte k segment offset v)
  | copyBlock {k : M} (h : Overwrites S m k) {srcSegment srcOffset dstSegment dstOffset : UInt16}
      {count : Nat} (hd : ∀ i < count, (physical dstSegment dstOffset + i) % memorySize ∈ S) :
    Overwrites S m (Bus.writeBlock k (physical dstSegment dstOffset)
      (Bus.readBlock k (physical srcSegment srcOffset) count))
  | portIn {k : M} (h : Overwrites S m k) (port : UInt16) :
    Overwrites S m (Bus.portIn k port).bus
  | portOut {k : M} (h : Overwrites S m k) (port : UInt16) (v : UInt8) :
    Overwrites S m (Bus.portOut k port v).bus

namespace Bus.Overwrites

variable {S : List Nat} {m k : M} (h : Overwrites S m k)
include h

theorem trans {l : M} (h' : Overwrites S k l) : Overwrites S m l := by
  induction h' with
  | refl => exact h
  | setByte _ ha v ih => exact ih.setByte ha v
  | copyBlock _ hd ih => exact ih.copyBlock hd
  | portIn _ port ih => exact ih.portIn port
  | portOut _ port v ih => exact ih.portOut port v

theorem setWord {segment offset : UInt16} (ha : cell segment offset .word ⊆ S) (v : UInt16) :
    Overwrites S m (Bus.setWord k segment offset v) := by
  have hlow := h.setByte (ha (List.mem_cons_self ..)) (lowByte v)
  exact hlow.setByte (ha (List.mem_cons_of_mem _ (List.mem_cons_self ..))) (highByte v)

theorem portInWord (port : UInt16) : Overwrites S m (Bus.portInWord k port).bus :=
  (h.portIn port).portIn (port + 1)

theorem portOutWord (port v : UInt16) : Overwrites S m (Bus.portOutWord k port v).bus :=
  (h.portOut port _).portOut (port + 1) _

theorem series {n : Nat} (segment : UInt16) (offset : Nat → UInt16)
    (f : (i : Nat) → i < n → M → UInt8) (ha : ∀ i < n, physical segment (offset i) ∈ S) :
    Overwrites S m
      (n.fold (fun i hi l => Bus.setByte l segment (offset i) (f i hi l)) k) := by
  induction n with
  | zero => exact h
  | succ n ih =>
    rw [Nat.fold_succ]
    have hrest := ih (fun i hi => f i (by omega)) fun i hi => ha i (by omega)
    exact hrest.setByte (ha n (by omega)) _

theorem fill {segment offset : UInt16} {count : Nat} (v : UInt8)
    (ha : ∀ i < count, physical segment (offset + UInt16.ofNat i) ∈ S) :
    Overwrites S m (Bus.fill k segment offset count v) :=
  h.series segment _ (fun _ _ _ => v) ha

/-- A block goes where its bytes would go one by one. -/
theorem copy {dstSegment dstOffset : UInt16} {count : Nat} {d : Direction}
    (srcSegment srcOffset : UInt16)
    (ha : ∀ i < count, physical dstSegment (d.offset dstOffset 1 i) ∈ S) :
    Overwrites S m (Bus.copy k srcSegment srcOffset dstSegment dstOffset count d) := by
  unfold Bus.copy
  split
  next hblock =>
    simp only [Bool.and_eq_true, decide_eq_true_eq, copiesAsBlock, Bool.not_eq_true',
      wrapsSegment, decide_eq_false_iff_not] at hblock
    obtain ⟨rfl, ⟨⟨⟨-, hwrap⟩, -⟩, hfit⟩, -⟩ := hblock
    apply h.copyBlock
    intro i hi
    have heq := physical_eq_add (Nat.not_lt.mp hwrap) hfit hi
    rw [Nat.mod_eq_of_lt (by omega), ← heq]
    exact ha i hi
  next => exact h.series dstSegment _ _ ha

end Bus.Overwrites

/-- Port accesses leave memory as it is. -/
class QuietPorts (M : Type) [Bus M] : Prop where
  read_portIn (m : M) (port : UInt16) (a : Nat) :
    Bus.read (Bus.portIn m port).bus a = Bus.read m a
  read_portOut (m : M) (port : UInt16) (v : UInt8) (a : Nat) :
    Bus.read (Bus.portOut m port v).bus a = Bus.read m a

instance : QuietPorts Ram := ⟨fun _ _ _ => rfl, fun _ _ _ _ => rfl⟩

instance : QuietPorts BareRam := ⟨fun _ _ _ => rfl, fun _ _ _ _ => rfl⟩

theorem Bus.Overwrites.read_eq [LawfulBus M] [QuietPorts M] {S : List Nat} {m k : M}
    (h : Overwrites S m k) {a : Nat} (ha : a < memorySize) (hout : a ∉ S) :
    Bus.read k a = Bus.read m a := by
  induction h with
  | refl => rfl
  | setByte _ hmem v ih =>
    rw [Bus.setByte, Bus.read_write_of_ne _ v (physical_lt _ _) ha, ih]
    rintro rfl
    exact hout hmem
  | @copyBlock k _ srcSegment srcOffset dstSegment dstOffset count hd ih =>
    rw [LawfulBus.writeBlock_eq _ _ (physical_lt _ _), ← ih]
    apply Bus.read_series_of_ne _ _ k (fun _ _ => Nat.mod_lt _ (by decide)) ha
    intro i hi heq
    rw [LawfulBus.readBlock_eq _ _ (physical_lt _ _), size_tabulate] at hi
    exact hout (heq ▸ hd i hi)
  | portIn _ port ih => rw [QuietPorts.read_portIn, ih]
  | portOut _ port v ih => rw [QuietPorts.read_portOut, ih]

end Memory

end RealMode
