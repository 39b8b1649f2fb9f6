import RealMode.Decode
import RealMode.Proofs.MemorySimulation

/-! # Morphisms of buses

A map between two kinds of memory that all accesses over the bus respect.
-/
namespace RealMode

def Cycle.map {M N α : Type} (f : M → N) (y : Cycle M α) : Cycle N α := ⟨y.value, f y.bus, y.notes⟩

namespace Bus

structure Morphism (M N : Type) [Bus M] [Bus N] where
  map : M → N
  read_map (m : M) {a : Nat} : a < memorySize → Bus.read (map m) a = Bus.read m a
  write_map (m : M) (v : UInt8) {a : Nat} :
    a < memorySize → Bus.write (map m) a v = map (Bus.write m a v)
  readBlock_map (m : M) (n : Nat) {a : Nat} :
    a < memorySize → Bus.readBlock (map m) a n = Bus.readBlock m a n
  writeBlock_map (m : M) (data : ByteArray) {a : Nat} :
    a < memorySize → Bus.writeBlock (map m) a data = map (Bus.writeBlock m a data)
  portIn_map (m : M) (port : UInt16) : Bus.portIn (map m) port = (Bus.portIn m port).map map
  portOut_map (m : M) (port : UInt16) (v : UInt8) :
    Bus.portOut (map m) port v = (Bus.portOut m port v).map map

namespace Morphism

variable {M N : Type} [Bus M] [Bus N]

def id : Morphism M M :=
  ⟨fun m => m, fun _ _ _ => rfl, fun _ _ _ _ => rfl, fun _ _ _ _ => rfl, fun _ _ _ _ => rfl,
    fun _ _ => rfl, fun _ _ _ => rfl⟩

variable (f : Morphism M N) (m : M)

/-- A memory cannot be told from its image. -/
theorem simulation : Simulation fun (m : M) (n : N) => f.map m = n where
  read := by
    rintro m _ rfl a ha
    exact (f.read_map m ha).symm
  write := by
    rintro m _ rfl a ha v
    exact (f.write_map m v ha).symm
  writeBlock := by
    rintro m _ rfl a ha data
    exact (f.writeBlock_map m data ha).symm

theorem getByte_map (segment offset : UInt16) :
    Bus.getByte (f.map m) segment offset = Bus.getByte m segment offset :=
  (f.simulation.getByte rfl segment offset).symm

theorem setByte_map (segment offset : UInt16) (v : UInt8) :
    Bus.setByte (f.map m) segment offset v = f.map (Bus.setByte m segment offset v) :=
  (f.simulation.setByte rfl segment offset v).symm

theorem getWord_map (segment offset : UInt16) :
    Bus.getWord (f.map m) segment offset = Bus.getWord m segment offset :=
  (f.simulation.getWord rfl segment offset).symm

theorem setWord_map (segment offset v : UInt16) :
    Bus.setWord (f.map m) segment offset v = f.map (Bus.setWord m segment offset v) :=
  (f.simulation.setWord rfl segment offset v).symm

theorem fill_map (segment offset : UInt16) (n : Nat) (v : UInt8) :
    Bus.fill (f.map m) segment offset n v = f.map (Bus.fill m segment offset n v) :=
  (f.simulation.fill rfl segment offset n v).symm

theorem copy_map (srcSegment srcOffset dstSegment dstOffset : UInt16) (n : Nat) (d : Direction) :
    Bus.copy (f.map m) srcSegment srcOffset dstSegment dstOffset n d =
      f.map (Bus.copy m srcSegment srcOffset dstSegment dstOffset n d) := by
  unfold Bus.copy
  split
  next => rw [f.readBlock_map m n (physical_lt ..), f.writeBlock_map m _ (physical_lt ..)]
  next =>
    refine (Simulation.fold (R := fun m n => f.map m = n) rfl ?_).symm
    rintro i _ k _ rfl
    rw [getByte_map, setByte_map]

theorem portInWord_map (port : UInt16) :
    Bus.portInWord (f.map m) port = (Bus.portInWord m port).map f.map := by
  simp only [Bus.portInWord, f.portIn_map, Cycle.map]

theorem portOutWord_map (port v : UInt16) :
    Bus.portOutWord (f.map m) port v = (Bus.portOutWord m port v).map f.map := by
  simp only [Bus.portOutWord, f.portOut_map, Cycle.map]

theorem readVector_map (vector : UInt8) : readVector (f.map m) vector = readVector m vector :=
  (f.simulation.readVector rfl vector).symm

theorem decodeAt_map (regs : Registers) (model : Model) (cs ip : UInt16) :
    decodeAt (f.map m) regs model cs ip = decodeAt m regs model cs ip := by
  simp only [decodeAt, CodeView.ofBus, getByte_map]

end Morphism
end Bus
end RealMode
