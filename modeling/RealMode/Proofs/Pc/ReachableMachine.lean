import RealMode.Proofs.Pc.SoundMachine
import RealMode.Proofs.PushedImages

/-! # Reachable machines

A machine is reached from a new one by operations and by interrupts from outside.
-/
namespace RealMode

namespace Pc.Machine

inductive Reachable : Machine Service → Prop where
  | new (config : Config) (journal : Journal) : Reachable (.new config journal)
  | operation {m : Machine Service} (h : Reachable m) (o : Operation) :
    Reachable (after o.action m)
  | interrupt {m : Machine Service} (h : Reachable m) (vector : UInt8) :
    Reachable (after (liftCpu (Cpu.interrupt vector)) m)

theorem Reachable.sound {m : Machine Service} (h : m.Reachable) : m.Sound := by
  induction h with
  | new config journal => exact sound_new config journal
  | operation _ o ih => exact o.keepsSound_action _ ih
  | interrupt _ vector ih =>
    have hkeeps := KeepsSound.liftCpu fun config => .interrupt (Installed.lasting config) vector
    exact hkeeps _ ih

end Pc.Machine

/-- In every state that a processor without services or a machine with its own can be in, the
flags register is well formed and so is every image of it that goes to the stack. -/
theorem reachable_pushesFormed :
    (∀ (M H : Type) [Bus M] [HostService M H] (c : Cpu M H), c.Reachable → c.PushesFormed) ∧
      ∀ m : Pc.Machine Pc.Service, m.Reachable → m.cpu.PushesFormed := by
  constructor
  · intro M H _ _ c h
    exact .of_flags h.formed.flags
  · intro m h
    exact .of_flags h.sound.installed.flags

/-- A processor that has started and finds nothing but PUSHF. -/
def Filled.pushing : Cpu Filled Empty := (Cpu.new ⟨0⟩ .i8086 .silent).withMemory ⟨0x9C⟩

theorem Filled.reachable_pushing : pushing.Reachable := by
  have hnew : (Cpu.new ⟨0⟩ .i8086 .silent : Cpu Filled Empty).Reachable :=
    Cpu.Reachable.new _ _ _
  exact hnew.withMemory _

theorem Filled.op_pushing : pushing.decoded.instruction.op = .pushf :=
  op_decoded rfl rfl rfl (by decide +kernel)

/-- A machine in which all bits of all registers have been loaded. -/
def Pc.Machine.allLoaded : Machine Service :=
  after (Operation.loadState (.object [("registers",
    .array (List.replicate 14 (.ofNat 0xFFFF)))])).action (.new .standard .silent)

theorem Pc.Machine.reachable_allLoaded : allLoaded.Reachable :=
  Reachable.operation (.new .standard .silent) (.loadState _)

theorem formed_images_after_start_and_load :
    (Filled.pushing.Reachable ∧ ∃ w, FormedImage w ∧
      Cpu.step Filled.pushing = .ok () (Filled.pushing.atInstruction.push w)) ∧
    Pc.Machine.allLoaded.Reachable ∧ ∀ vector, ∃ w, FormedImage w ∧
      Pc.Machine.allLoaded.cpu.PushesFrame vector w := by
  have hstart := reachable_pushesFormed.1 Filled Empty _ Filled.reachable_pushing
  have hload := reachable_pushesFormed.2 _ Pc.Machine.reachable_allLoaded
  exact ⟨⟨Filled.reachable_pushing, hstart.pushf rfl Filled.op_pushing⟩,
    Pc.Machine.reachable_allLoaded, hload.interrupt⟩

end RealMode
