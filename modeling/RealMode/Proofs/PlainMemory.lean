import RealMode.Proofs.BytewiseAccess
import RealMode.Proofs.RefittedExecution

/-! # Plain memories

Putting the bytes of a plain memory in a flat one is a morphism of buses, although the flat one
moves blocks in its own way.
-/
namespace RealMode

/-- A memory of bytes and nothing else, without blocks or ports of its own. -/
class PlainMemory (M : Type) [Bus M] : Prop extends LawfulMemory M where
  ext {m k : M} : Bus.SameContents m k → m = k
  readBlock_eq (m : M) (a n : Nat) :
    Bus.readBlock m a n = tabulate n fun i => Bus.read m ((a + i) % memorySize)
  writeBlock_eq (m : M) (a : Nat) (data : ByteArray) :
    Bus.writeBlock m a data = writeEach Bus.write (fun i => (a + i) % memorySize) data m
  portIn_eq (m : M) (port : UInt16) : Bus.portIn m port = ⟨0xFF, m, []⟩
  portOut_eq (m : M) (port : UInt16) (v : UInt8) : Bus.portOut m port v = ⟨(), m, []⟩

instance : PlainMemory BareRam where
  ext h := congrArg BareRam.mk (Ram.ext_read h)
  readBlock_eq _ _ _ := rfl
  writeBlock_eq _ _ _ := rfl
  portIn_eq _ _ := rfl
  portOut_eq _ _ _ := rfl

namespace PlainMemory

variable {M : Type} [Bus M] [PlainMemory M]

@[reducible]
def lawfulBus (M : Type) [Bus M] [PlainMemory M] : LawfulBus M where
  Devices := Unit
  devices _ := ()
  devices_write _ _ _ := rfl
  ext h _ := ext h
  readBlock_eq m n a _ := readBlock_eq m a n
  writeBlock_eq m data a _ := writeBlock_eq m a data

@[irreducible]
def flat (m : M) : Ram := ⟨tabulate memorySize (Bus.read m), size_tabulate ..⟩

omit [PlainMemory M] in
theorem read_flat (m : M) {a : Nat} (ha : a < memorySize) : (flat m).read a = Bus.read m a := by
  have hread (b : ByteArray) (hb : b.size = memorySize) (hab : a < b.size) :
      Ram.read ⟨b, hb⟩ a = b[a] := dif_pos hab
  have hsize : a < (tabulate memorySize (Bus.read m)).size := by
    rw [size_tabulate]
    exact ha
  unfold flat
  exact (hread _ _ hsize).trans (getElem_tabulate memorySize _ a hsize)

theorem write_flat (m : M) (v : UInt8) {a : Nat} (ha : a < memorySize) :
    (flat m).write a v = flat (Bus.write m a v) := by
  apply Ram.ext_read
  intro b hb
  rw [Ram.read_write _ _ _ _ ha, read_flat _ hb, read_flat _ hb, LawfulMemory.read_write m v ha hb]

theorem writeEach_flat (m : M) (data : ByteArray) {address : Nat → Nat}
    (h : ∀ i, address i < memorySize) :
    writeEach Ram.write address data (flat m) = flat (writeEach Bus.write address data m) := by
  refine (Bus.Simulation.fold (R := fun m r => flat m = r) rfl ?_).symm
  rintro i _ k _ rfl
  exact (write_flat k _ (h i)).symm

omit [PlainMemory M] in
theorem flat_eq_iff {m : M} {r : Ram} : flat m = r ↔ Bus.SameContents m r := by
  constructor
  · rintro rfl a ha
    exact (read_flat m ha).symm
  · intro h
    apply Ram.ext_read
    intro a ha
    rw [read_flat m ha]
    exact h a ha

def flatten (M : Type) [Bus M] [PlainMemory M] : Bus.Morphism M Ram where
  map := flat
  read_map m _ ha := read_flat m ha
  write_map m v _ ha := write_flat m v ha
  readBlock_map m n a _ := by
    show (flat m).readBlock a n = _
    rw [Ram.readBlock_eq, readBlock_eq]
    congr 1
    funext i
    exact read_flat m (Nat.mod_lt _ (by decide))
  writeBlock_map m data a _ := by
    show (flat m).writeBlock a data = _
    rw [Ram.writeBlock_eq, writeBlock_eq]
    exact writeEach_flat m data fun i => Nat.mod_lt _ (by decide)
  portIn_map m port := by
    rw [portIn_eq m]
    rfl
  portOut_map m port v := by
    rw [portOut_eq m]
    rfl

end PlainMemory

namespace Cpu

variable {M N H : Type} [Bus M] [Bus N]

/-- Equal but for the kind of memory. -/
structure SameState (c : Cpu M H) (d : Cpu N H) : Prop where
  regs : c.regs = d.regs
  flags : c.flags = d.flags
  contents : Bus.SameContents c.memory d.memory
  services : c.services = d.services
  steps : c.steps = d.steps
  halted : c.halted = d.halted
  model : c.model = d.model
  journal : c.journal = d.journal

def stepTimes [HostService M H] : Nat → Exec M H Unit
  | 0 => pure ()
  | n + 1 => do
    step
    stepTimes n

theorem stepTimes_succeeds [HostService M H] {c : Cpu M H} (hc : c.Unserved) (n : Nat) :
    ∃ d, stepTimes n c = .ok () d := by
  induction n generalizing c with
  | zero => exact ⟨c, rfl⟩
  | succ n ih =>
    obtain ⟨_, d, hd, hu⟩ := Blameless.step.ok hc
    obtain ⟨e, he⟩ := ih hu
    exact ⟨e, (bind_of_ok hd).trans he⟩

theorem parallel_stepTimes [HostService M H] [HostService N H] {φ : Refit M N}
    (hmodel : ∀ m, φ.model m = m) (n : Nat) :
    Parallel φ (stepTimes n : Exec M H Unit) (stepTimes n) := by
  induction n with
  | zero => exact .pure ()
  | succ n ih => exact .bind (.step hmodel) fun _ => ih

section Flat

variable [PlainMemory M] {c : Cpu M H} {d : Cpu Ram H}

def flattened (M : Type) [Bus M] [PlainMemory M] : Refit M Ram :=
  ⟨PlainMemory.flatten M, fun model => model⟩

theorem refit_flattened_iff : c.refit (flattened M) = d ↔ c.SameState d := by
  have hmemory := PlainMemory.flat_eq_iff (m := c.memory) (r := d.memory)
  constructor
  · rintro rfl
    exact ⟨rfl, rfl, hmemory.mp rfl, rfl, rfl, rfl, rfl, rfl⟩
  · rintro ⟨hregs, hflags, hcontents, hservices, hsteps, hhalted, hmodel, hjournal⟩
    have hflat := hmemory.mpr hcontents
    cases d
    simp only at hregs hflags hflat hservices hsteps hhalted hmodel hjournal
    subst hregs hflags hflat hservices hsteps hhalted hmodel hjournal
    rfl

theorem SameState.stepTimes [HostService M H] [HostService Ram H] (h : c.SameState d)
    (hc : c.Unserved) (n : Nat) :
    ∃ c' d', Cpu.stepTimes n c = .ok () c' ∧ Cpu.stepTimes n d = .ok () d' ∧ c'.SameState d' := by
  obtain rfl := refit_flattened_iff.mpr h
  obtain ⟨c', hc'⟩ := stepTimes_succeeds hc n
  have hpar : Cpu.stepTimes n (c.refit (flattened M)) =
      refitted (flattened M) (Cpu.stepTimes n c) :=
    (parallel_stepTimes (fun _ => rfl) n).eq_refitted hc
  rw [hc'] at hpar
  exact ⟨c', c'.refit (flattened M), hc', hpar, refit_flattened_iff.mp rfl⟩

end Flat
end Cpu
end RealMode
