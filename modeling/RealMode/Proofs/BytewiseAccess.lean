import RealMode.Proofs.SegmentedAccess
import RealMode.Proofs.BlockCopy

/-! # Accesses byte by byte

Every access to memory stands for a list of single bytes that are read, written or moved.
-/
namespace RealMode

abbrev Address := Fin memorySize

namespace Address

def of (segment offset : UInt16) : Address := ⟨physical segment offset, physical_lt segment offset⟩

def beyond (a : Address) (i : Nat) : Address := ⟨(a + i) % memorySize, Nat.mod_lt _ (by decide)⟩

end Address

/-- The offset of byte `i` in a direction, wrapping in the segment. -/
def Direction.passed (d : Direction) (offset : UInt16) (i : Nat) : UInt16 :=
  match d with
  | forward => offset + UInt16.ofNat i
  | backward => offset - UInt16.ofNat i

theorem Direction.offset_eq_passed (d : Direction) (start : UInt16) (i : Nat) :
    d.offset start 1 i = d.passed start i := by
  cases d with
  | forward => exact (add_ofNat start i).symm
  | backward =>
    apply UInt16.toNat_inj.mp
    simp only [offset, step, passed, toNat_ofInt, UInt16.toNat_sub, UInt16.toNat_ofNat']
    omega

def Bus.SameContents {M N : Type} [Bus M] [Bus N] (m : M) (n : N) : Prop :=
  ∀ a < memorySize, Bus.read m a = Bus.read n a

inductive Transfer where
  | load (a : Address)
  | store (a : Address) (v : UInt8)
  | move (src dst : Address)

namespace Transfer

variable {M N : Type} [Bus M] [Bus N]

/-- The byte that is read, if one is, and the memory afterwards. -/
def perform (t : Transfer) (m : M) : List UInt8 × M :=
  match t with
  | load a => ([Bus.read m a], m)
  | store a v => ([], Bus.write m a v)
  | move src dst => ([], Bus.write m dst (Bus.read m src))

def performAll : List Transfer → M → List UInt8 × M
  | [], m => ([], m)
  | t :: ts, m =>
    let first := t.perform m
    let rest := performAll ts first.2
    (first.1 ++ rest.1, rest.2)

section Series

variable {α : Type} (xs : List α) (m : M)

theorem performAll_loads (a : α → Address) :
    performAll (xs.map fun x => load (a x)) m = (xs.map fun x => Bus.read m (a x), m) := by
  induction xs with
  | nil => rfl
  | cons x xs ih =>
    simp only [List.map_cons, performAll, perform, ih]
    rfl

theorem performAll_stores (a : α → Address) (v : α → UInt8) :
    performAll (xs.map fun x => store (a x) (v x)) m =
      ([], xs.foldl (fun m x => Bus.write m (a x) (v x)) m) := by
  induction xs generalizing m with
  | nil => rfl
  | cons x xs ih =>
    simp only [List.map_cons, performAll, perform, ih]
    rfl

theorem performAll_moves (src dst : α → Address) :
    performAll (xs.map fun x => move (src x) (dst x)) m =
      ([], xs.foldl (fun m x => Bus.write m (dst x) (Bus.read m (src x))) m) := by
  induction xs generalizing m with
  | nil => rfl
  | cons x xs ih =>
    simp only [List.map_cons, performAll, perform, ih]
    rfl

end Series

variable [LawfulMemory M] [LawfulMemory N] {m : M} {n : N}

theorem perform_same (h : Bus.SameContents m n) (t : Transfer) :
    (t.perform m).1 = (t.perform n).1 ∧ Bus.SameContents (t.perform m).2 (t.perform n).2 := by
  have hwrite (a : Address) (v : UInt8) :
      Bus.SameContents (Bus.write m a v) (Bus.write n a v) := by
    intro b hb
    rw [Bus.read_write m v a.isLt hb, Bus.read_write n v a.isLt hb, h b hb]
  cases t with
  | load a => exact ⟨congrArg (fun v => [v]) (h a a.isLt), h⟩
  | store a v => exact ⟨rfl, hwrite a v⟩
  | move src dst =>
    refine ⟨rfl, ?_⟩
    show Bus.SameContents (Bus.write m dst (Bus.read m src)) (Bus.write n dst (Bus.read n src))
    rw [h src src.isLt]
    exact hwrite dst _

theorem performAll_same (h : Bus.SameContents m n) (ts : List Transfer) :
    (performAll ts m).1 = (performAll ts n).1 ∧
      Bus.SameContents (performAll ts m).2 (performAll ts n).2 := by
  induction ts generalizing m n with
  | nil => exact ⟨rfl, h⟩
  | cons t ts ih =>
    obtain ⟨hfirst, hsame⟩ := perform_same h t
    obtain ⟨hrest, hend⟩ := ih hsame
    refine ⟨?_, hend⟩
    show (t.perform m).1 ++ _ = (t.perform n).1 ++ _
    rw [hfirst, hrest]

end Transfer

inductive Access where
  | getByte (segment offset : UInt16)
  | setByte (segment offset : UInt16) (v : UInt8)
  | getWord (segment offset : UInt16)
  | setWord (segment offset v : UInt16)
  | getBytes (segment offset : UInt16) (count : Nat)
  | setBytes (segment offset : UInt16) (data : ByteArray)
  | fill (segment offset : UInt16) (count : Nat) (v : UInt8)
  | copy (srcSegment srcOffset dstSegment dstOffset : UInt16) (count : Nat) (d : Direction)
  | readBlock (a : Address) (count : Nat)
  | writeBlock (a : Address) (data : ByteArray)

namespace Access

variable {M N : Type} [Bus M] [Bus N]

/-- The bytes that an access answers, of a word the low byte first, and the memory afterwards. -/
def perform (x : Access) (m : M) : List UInt8 × M :=
  match x with
  | getByte segment offset => ([Bus.getByte m segment offset], m)
  | setByte segment offset v => ([], Bus.setByte m segment offset v)
  | getWord segment offset =>
    let w := Bus.getWord m segment offset
    ([lowByte w, highByte w], m)
  | setWord segment offset v => ([], Bus.setWord m segment offset v)
  | getBytes segment offset count => ((Bus.getBytes m segment offset count).data.toList, m)
  | setBytes segment offset data => ([], Bus.setBytes m segment offset data)
  | fill segment offset count v => ([], Bus.fill m segment offset count v)
  | copy srcSegment srcOffset dstSegment dstOffset count d =>
    ([], Bus.copy m srcSegment srcOffset dstSegment dstOffset count d)
  | readBlock a count => ((Bus.readBlock m a count).data.toList, m)
  | writeBlock a data => ([], Bus.writeBlock m a data)

def transfers (x : Access) : List Transfer :=
  match x with
  | getByte segment offset => [.load (.of segment offset)]
  | setByte segment offset v => [.store (.of segment offset) v]
  | getWord segment offset => [.load (.of segment offset), .load (.of segment (offset + 1))]
  | setWord segment offset v =>
    [.store (.of segment offset) (lowByte v), .store (.of segment (offset + 1)) (highByte v)]
  | getBytes segment offset count =>
    (List.finRange count).map fun i : Fin count => .load (.of segment (offset + UInt16.ofNat i))
  | setBytes segment offset data =>
    (List.finRange data.size).map fun i : Fin data.size =>
      .store (.of segment (offset + UInt16.ofNat i)) data[i]
  | fill segment offset count v =>
    (List.finRange count).map fun i : Fin count => .store (.of segment (offset + UInt16.ofNat i)) v
  | copy srcSegment srcOffset dstSegment dstOffset count d =>
    (List.finRange count).map fun i : Fin count =>
      .move (.of srcSegment (d.passed srcOffset i)) (.of dstSegment (d.passed dstOffset i))
  | readBlock a count => (List.finRange count).map fun i : Fin count => .load (a.beyond i)
  | writeBlock a data =>
    (List.finRange data.size).map fun i : Fin data.size => .store (a.beyond i) data[i]

theorem toList_tabulate (n : Nat) (f : Nat → UInt8) :
    (tabulate n f).data.toList = (List.finRange n).map fun i : Fin n => f i := by
  simp [tabulate, List.finRange, List.map_ofFn, Function.comp_def]

/-- Whichever way the bus goes about it, an access does what its bytes do one by one. -/
theorem perform_eq_performAll [LawfulBus M] (x : Access) (m : M) :
    x.perform m = Transfer.performAll x.transfers m := by
  cases x with
  | getByte => rfl
  | setByte => rfl
  | getWord segment offset =>
    simp only [perform, Bus.getWord, lowByte_wordOf, highByte_wordOf]
    rfl
  | setWord => rfl
  | getBytes segment offset count =>
    rw [transfers, Transfer.performAll_loads, perform, Bus.getBytes, toList_tabulate]
    rfl
  | setBytes segment offset data =>
    rw [transfers, Transfer.performAll_stores, perform, Bus.setBytes_eq_writeEach, writeEach,
      Nat.fold_eq_finRange_foldl]
    rfl
  | fill segment offset count v =>
    rw [transfers, Transfer.performAll_stores, perform, Bus.fill, Nat.fold_eq_finRange_foldl]
    rfl
  | copy srcSegment srcOffset dstSegment dstOffset count d =>
    rw [transfers, Transfer.performAll_moves, perform, Bus.copy_eq_copyEach, Bus.copyEach,
      Nat.fold_eq_finRange_foldl]
    simp only [Direction.offset_eq_passed]
    rfl
  | readBlock a count =>
    rw [transfers, Transfer.performAll_loads, perform, LawfulBus.readBlock_eq m count a.isLt,
      toList_tabulate]
    rfl
  | writeBlock a data =>
    rw [transfers, Transfer.performAll_stores, perform, LawfulBus.writeBlock_eq m data a.isLt,
      writeEach, Nat.fold_eq_finRange_foldl]
    rfl

def performAll : List Access → M → List (List UInt8) × M
  | [], m => ([], m)
  | x :: xs, m =>
    let first := x.perform m
    let rest := performAll xs first.2
    (first.1 :: rest.1, rest.2)

section Lawful

variable [LawfulBus M] [LawfulBus N] {m : M} {n : N}

theorem perform_same (h : Bus.SameContents m n) (x : Access) :
    (x.perform m).1 = (x.perform n).1 ∧ Bus.SameContents (x.perform m).2 (x.perform n).2 := by
  rw [perform_eq_performAll, perform_eq_performAll]
  exact Transfer.performAll_same h x.transfers

theorem performAll_same (h : Bus.SameContents m n) (xs : List Access) :
    (performAll xs m).1 = (performAll xs n).1 ∧
      Bus.SameContents (performAll xs m).2 (performAll xs n).2 := by
  induction xs generalizing m n with
  | nil => exact ⟨rfl, h⟩
  | cons x xs ih =>
    obtain ⟨hfirst, hsame⟩ := perform_same h x
    obtain ⟨hrest, hend⟩ := ih hsame
    refine ⟨?_, hend⟩
    show (x.perform m).1 :: _ = (x.perform n).1 :: _
    rw [hfirst, hrest]

end Lawful
end Access
end RealMode
