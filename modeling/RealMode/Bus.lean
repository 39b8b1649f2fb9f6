import RealMode.Address
import RealMode.Journal
import RealMode.Word

/-! # The bus

What a processor needs of the machine around it: bytes at physical addresses, and ports.
-/
namespace RealMode

def tabulate (n : Nat) (f : Nat → UInt8) : ByteArray := ⟨Array.ofFn fun i : Fin n => f i.val⟩

/-- Writes byte `i` of the data at `address i`, in ascending order of `i`. -/
def writeEach {M : Type} (write : M → Nat → UInt8 → M) (address : Nat → Nat) (data : ByteArray)
    (m : M) : M :=
  data.size.fold (fun i h m => write m (address i) data[i]) m

/-- The result of a port access, with what it leaves in the journal. -/
structure Cycle (M α : Type) where
  value : α
  bus : M
  notes : List Note

class Bus (M : Type) where
  read : M → Nat → UInt8
  write : M → Nat → UInt8 → M
  readBlock : M → Nat → Nat → ByteArray :=
    fun m a n => tabulate n fun i => read m ((a + i) % memorySize)
  writeBlock : M → Nat → ByteArray → M :=
    fun m a data => writeEach write (fun i => (a + i) % memorySize) data m
  portIn : M → UInt16 → Cycle M UInt8 := fun m _ => ⟨0xFF, m, []⟩
  portOut : M → UInt16 → UInt8 → Cycle M Unit := fun m _ _ => ⟨(), m, []⟩

namespace Bus

variable {M : Type} [Bus M]

def portInWord (m : M) (port : UInt16) : Cycle M UInt16 :=
  let low := portIn m port
  let high := portIn low.bus (port + 1)
  ⟨wordOf low.value high.value, high.bus, low.notes ++ high.notes⟩

def portOutWord (m : M) (port v : UInt16) : Cycle M Unit :=
  let low := portOut m port (lowByte v)
  let high := portOut low.bus (port + 1) (highByte v)
  ⟨(), high.bus, low.notes ++ high.notes⟩

end Bus

theorem size_tabulate (n : Nat) (f : Nat → UInt8) : (tabulate n f).size = n :=
  Array.size_ofFn

theorem getElem_tabulate (n : Nat) (f : Nat → UInt8) (i : Nat) (h : i < (tabulate n f).size) :
    (tabulate n f)[i] = f i := by
  simp [tabulate, ByteArray.getElem_eq_getElem_data]

end RealMode
