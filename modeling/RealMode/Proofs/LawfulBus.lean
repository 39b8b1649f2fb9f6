import RealMode.Bus.Segmented
import RealMode.Ram

/-! # Lawful buses

The memory of a lawful bus is an array of 2^20 bytes, and its block transfers do what single bytes
in ascending order would do.
-/
namespace RealMode

class LawfulMemory (M : Type) [Bus M] : Prop where
  read_write (m : M) (v : UInt8) {a b : Nat} : a < memorySize → b < memorySize →
    Bus.read (Bus.write m a v) b = if b = a then v else Bus.read m b

class LawfulBus (M : Type) [Bus M] extends LawfulMemory M where
  Devices : Type
  devices : M → Devices
  devices_write (m : M) (a : Nat) (v : UInt8) : devices (Bus.write m a v) = devices m
  ext {m k : M} : (∀ a < memorySize, Bus.read m a = Bus.read k a) →
    devices m = devices k → m = k
  readBlock_eq (m : M) (n : Nat) {a : Nat} : a < memorySize →
    Bus.readBlock m a n = tabulate n fun i => Bus.read m ((a + i) % memorySize)
  writeBlock_eq (m : M) (data : ByteArray) {a : Nat} : a < memorySize →
    Bus.writeBlock m a data = writeEach Bus.write (fun i => (a + i) % memorySize) data m

namespace Bus

variable {M : Type} [Bus M] [LawfulMemory M]

theorem read_write (m : M) (v : UInt8) {a b : Nat} (ha : a < memorySize) (hb : b < memorySize) :
    read (write m a v) b = if b = a then v else read m b := LawfulMemory.read_write m v ha hb

theorem read_write_self (m : M) (v : UInt8) {a : Nat} (ha : a < memorySize) :
    read (write m a v) a = v := by
  rw [read_write m v ha ha, if_pos rfl]

theorem read_write_of_ne (m : M) (v : UInt8) {a b : Nat} (ha : a < memorySize)
    (hb : b < memorySize) (hne : b ≠ a) : read (write m a v) b = read m b := by
  rw [read_write m v ha hb, if_neg hne]

section Series

variable (address : Nat → Nat) {n : Nat} (f : (i : Nat) → i < n → M → UInt8) (m : M)

theorem read_series_of_ne {b : Nat} (ha : ∀ i < n, address i < memorySize) (hb : b < memorySize)
    (hne : ∀ i < n, address i ≠ b) :
    read (n.fold (fun i h m => write m (address i) (f i h m)) m) b = read m b := by
  induction n with
  | zero => rfl
  | succ n ih =>
    rw [Nat.fold_succ, read_write_of_ne _ _ (ha n (by omega)) hb (hne n (by omega)).symm]
    exact ih _ (fun i hi => ha i (by omega)) (fun i hi => hne i (by omega))

/-- What is read at an address is what the last write to it has put there. -/
theorem read_series_of_last {j : Nat} (hj : j < n) (ha : ∀ i < n, address i < memorySize)
    (last : ∀ i, j < i → i < n → address i ≠ address j) :
    read (n.fold (fun i h m => write m (address i) (f i h m)) m) (address j) =
      f j hj (j.fold (fun i h m => write m (address i) (f i (by omega) m)) m) := by
  induction n with
  | zero => omega
  | succ n ih =>
    rw [Nat.fold_succ]
    by_cases hn : j = n
    · subst j
      exact read_write_self _ _ (ha n (by omega))
    · have hne : address j ≠ address n := (last n (by omega) (by omega)).symm
      rw [read_write_of_ne _ _ (ha n (by omega)) (ha j (by omega)) hne]
      exact ih _ (by omega) (fun i hi => ha i (by omega)) (fun i h h' => last i h (by omega))

end Series

theorem read_writeEach (m : M) (data : ByteArray) {a b : Nat} (h : a + data.size ≤ memorySize)
    (hb : b < memorySize) :
    read (writeEach write (fun i => (a + i) % memorySize) data m) b =
      if hd : a ≤ b ∧ b < a + data.size then data[b - a] else read m b := by
  have hlt : ∀ i < data.size, (a + i) % memorySize < memorySize :=
    fun i _ => Nat.mod_lt _ (by decide)
  have hmod : ∀ i < data.size, (a + i) % memorySize = a + i :=
    fun i hi => Nat.mod_eq_of_lt (by omega)
  split
  next hd =>
    have hj : b - a < data.size := by omega
    have hbj : (a + (b - a)) % memorySize = b := by rw [hmod _ hj]; omega
    have hread := read_series_of_last (fun i => (a + i) % memorySize) (fun i h _ => data[i]) m hj
      hlt (fun i hi hi' => by rw [hmod i hi', hmod _ hj]; omega)
    rw [hbj] at hread
    exact hread
  next hd =>
    apply read_series_of_ne _ _ m hlt hb
    intro i hi
    rw [hmod i hi]
    omega

end Bus

namespace LawfulBus

variable {M : Type} [Bus M] [LawfulBus M]

theorem devices_series (address : Nat → Nat) {n : Nat} (f : (i : Nat) → i < n → M → UInt8)
    (m : M) :
    devices (n.fold (fun i h m => Bus.write m (address i) (f i h m)) m) = devices m := by
  induction n with
  | zero => rfl
  | succ n ih => rw [Nat.fold_succ, devices_write, ih]

theorem contents_exist (m : M) (f : Nat → UInt8) :
    ∃ k : M, devices k = devices m ∧ ∀ a < memorySize, Bus.read k a = f a := by
  refine ⟨memorySize.fold (fun i _ m => Bus.write m i (f i)) m,
    devices_series id (fun i _ _ => f i) m, ?_⟩
  intro a ha
  exact Bus.read_series_of_last id (fun i _ _ => f i) m ha (fun i hi => hi)
    (fun i h _ => show i ≠ a by omega)

end LawfulBus

theorem getElem_copySlice_of_le {src dst : ByteArray} {a i : Nat} (h : a + src.size ≤ dst.size)
    (hi : i < dst.size) (hi' : i < (src.copySlice 0 dst a src.size).size) :
    (src.copySlice 0 dst a src.size)[i] =
      if hd : a ≤ i ∧ i < a + src.size then src[i - a] else dst[i] := by
  simp only [ByteArray.copySlice_eq_append]
  split
  next hd =>
    rw [ByteArray.getElem_append_left (by simp [ByteArray.size_extract]; omega),
      ByteArray.getElem_append_right (by simp [ByteArray.size_extract]; omega)]
    simp only [ByteArray.getElem_extract, ByteArray.size_extract]
    congr 1
    omega
  next hd =>
    by_cases hlt : i < a
    · rw [ByteArray.getElem_append_left (by simp [ByteArray.size_extract]; omega),
        ByteArray.getElem_append_left (by simp [ByteArray.size_extract]; omega)]
      simp only [ByteArray.getElem_extract, Nat.zero_add]
    · rw [ByteArray.getElem_append_right (by simp [ByteArray.size_extract]; omega)]
      simp only [ByteArray.getElem_extract]
      congr 1
      simp [ByteArray.size_extract]
      omega

namespace Ram

theorem lt_size (r : Ram) {a : Nat} (h : a < memorySize) : a < r.bytes.size := by
  rw [r.size_eq]
  exact h

theorem read_of_lt (r : Ram) {a : Nat} (h : a < r.bytes.size) : r.read a = r.bytes[a] := by
  simp only [read, h, ↓reduceDIte]

theorem ext_read {r s : Ram} (h : ∀ a < memorySize, r.read a = s.read a) : r = s := by
  have hb : r.bytes = s.bytes := by
    apply ByteArray.ext_getElem
    · rw [r.size_eq, s.size_eq]
    · intro i hi _
      have ha : i < memorySize := by rw [← r.size_eq]; exact hi
      rw [← read_of_lt r (r.lt_size ha), ← read_of_lt s (s.lt_size ha), h i ha]
  cases r
  cases s
  cases hb
  rfl

theorem readBlock_eq (r : Ram) (a n : Nat) :
    r.readBlock a n = tabulate n fun i => r.read ((a + i) % memorySize) := by
  unfold readBlock
  split
  next h =>
    have hs := r.size_eq
    apply ByteArray.ext_getElem
    · rw [size_tabulate, ByteArray.size_extract]
      omega
    · intro i hi hi'
      rw [size_tabulate] at hi'
      have hm : (a + i) % memorySize = a + i := Nat.mod_eq_of_lt (by omega)
      rw [getElem_tabulate, hm, read_of_lt r (r.lt_size (by omega)), ByteArray.getElem_extract]
  next => rfl

theorem read_writeBlock (r : Ram) (data : ByteArray) {a b : Nat}
    (h : a + data.size ≤ memorySize) (hb : b < memorySize) :
    (r.writeBlock a data).read b =
      if hd : a ≤ b ∧ b < a + data.size then data[b - a] else r.read b := by
  have hfit : a + data.size ≤ r.bytes.size := by rw [r.size_eq]; exact h
  rw [read_of_lt _ (lt_size _ hb), read_of_lt _ (lt_size _ hb)]
  simp only [writeBlock, h, ↓reduceDIte]
  exact getElem_copySlice_of_le hfit (r.lt_size hb) _

theorem read_blank {a : Nat} (ha : a < memorySize) : blank.read a = 0 := by
  rw [read_of_lt _ (lt_size _ ha)]
  simp [blank, ByteArray.getElem_eq_getElem_data]

theorem read_blank_write {a b : Nat} {v : UInt8} (ha : a < memorySize) (hb : b < memorySize) :
    (blank.write a v).read b = if b = a then v else 0 := by
  rw [read_write _ _ _ _ ha]
  split
  next => rfl
  next => exact read_blank hb

instance : LawfulMemory Ram where
  read_write m v _ _ ha _ := read_write m _ _ v ha

theorem writeBlock_eq (r : Ram) (data : ByteArray) (a : Nat) :
    r.writeBlock a data = writeEach write (fun i => (a + i) % memorySize) data r := by
  by_cases h : a + data.size ≤ memorySize
  · apply ext_read
    intro b hb
    rw [read_writeBlock r data h hb]
    exact (Bus.read_writeEach r data h hb).symm
  · simp only [writeBlock, h, ↓reduceDIte]

instance : LawfulBus Ram where
  Devices := Unit
  devices _ := ()
  devices_write _ _ _ := rfl
  ext h _ := ext_read h
  readBlock_eq m n _ _ := readBlock_eq m _ n
  writeBlock_eq m data _ _ := writeBlock_eq m data _

end Ram

instance : LawfulBus BareRam where
  read_write m v _ _ ha _ := Ram.read_write m.ram _ _ v ha
  Devices := Unit
  devices _ := ()
  devices_write _ _ _ := rfl
  ext h _ := congrArg BareRam.mk (Ram.ext_read h)
  readBlock_eq _ _ _ _ := rfl
  writeBlock_eq _ _ _ _ := rfl

end RealMode
