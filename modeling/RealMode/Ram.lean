import RealMode.Bus

/-! # Flat memory

Reading past the end gives FF, and writing there is ignored.
-/
namespace RealMode

structure Ram where
  bytes : ByteArray
  size_eq : bytes.size = memorySize

theorem size_setByte (b : ByteArray) (i : Nat) (v : UInt8) (h : i < b.size) :
    (b.set i v h).size = b.size := by
  show (b.data.set i v _).size = b.data.size
  exact Array.size_set _

theorem getElem_setByte (b : ByteArray) (i j : Nat) (v : UInt8) (h : i < b.size)
    (hj : j < b.size) (hs : j < (b.set i v h).size) :
    (b.set i v h)[j] = if i = j then v else b[j] := by
  simp only [ByteArray.getElem_eq_getElem_data, ByteArray.data_set]
  exact Array.getElem_set _ _

theorem size_copySlice_of_le {src dst : ByteArray} {a : Nat} (h : a + src.size ≤ dst.size) :
    (src.copySlice 0 dst a src.size).size = dst.size := by
  simp only [ByteArray.copySlice_eq_append, ByteArray.size_append, ByteArray.size_extract,
    ByteArray.size_data]
  omega

namespace Ram

def blank : Ram := ⟨⟨Array.replicate memorySize 0⟩, by simp [ByteArray.size]⟩

def read (r : Ram) (a : Nat) : UInt8 := if h : a < r.bytes.size then r.bytes[a] else 0xFF

def write (r : Ram) (a : Nat) (v : UInt8) : Ram :=
  if h : a < r.bytes.size then
    ⟨r.bytes.set a v h, by rw [size_setByte, r.size_eq]⟩
  else r

/-- The bytes from `a` on; past the top of memory they go on at zero. -/
def readBlock (r : Ram) (a n : Nat) : ByteArray :=
  if a + n ≤ memorySize then r.bytes.extract a (a + n)
  else tabulate n fun i => r.read ((a + i) % memorySize)

def writeBlock (r : Ram) (a : Nat) (data : ByteArray) : Ram :=
  if h : a + data.size ≤ memorySize then
    ⟨data.copySlice 0 r.bytes a data.size, by
      rw [size_copySlice_of_le (by rw [r.size_eq]; exact h), r.size_eq]⟩
  else writeEach write (fun i => (a + i) % memorySize) data r

instance : Bus Ram where
  read := read
  write := write
  readBlock := readBlock
  writeBlock := writeBlock

def readWord (r : Ram) (a : Nat) : UInt16 :=
  wordOf (r.read (a % memorySize)) (r.read ((a + 1) % memorySize))

def writeWord (r : Ram) (a : Nat) (v : UInt16) : Ram :=
  (r.write (a % memorySize) (lowByte v)).write ((a + 1) % memorySize) (highByte v)

theorem read_write (r : Ram) (a b : Nat) (v : UInt8) (h : a < memorySize) :
    (r.write a v).read b = if b = a then v else r.read b := by
  have ha : a < r.bytes.size := by rw [r.size_eq]; exact h
  by_cases hb : b < r.bytes.size
  · simp only [write, read, ha, hb, ↓reduceDIte, size_setByte, @eq_comm _ b a]
    exact getElem_setByte _ _ _ _ _ hb _
  · have hne : b ≠ a := by omega
    simp only [write, read, ha, hb, hne, ↓reduceDIte, size_setByte, ↓reduceIte]

end Ram

structure BareRam where
  ram : Ram

instance : Bus BareRam where
  read m a := m.ram.read a
  write m a v := ⟨m.ram.write a v⟩

end RealMode
