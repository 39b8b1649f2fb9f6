import RealMode.Proofs.RegisterAccess
import RealMode.Proofs.ServedErrors

/-! # Images of the flags on the stack -/
namespace RealMode

/-- Bit 1 is set, and bits 3, 5 and 12 to 15 are clear. -/
def FormedImage (w : UInt16) : Prop := w &&& 0xF02A = 0x0002

namespace Cpu

variable {M H : Type} [Bus M]

def framed (c : Cpu M H) (image : UInt16) : M :=
  (((c.push image).push c.regs.cs).push c.regs.ip).memory

theorem memory_pushFrame (c : Cpu M H) : c.pushFrame.memory = c.framed c.flags.word := by
  cases c
  rfl

theorem framed_note (c : Cpu M H) (a : Category) (l : Level) (t : Unit → String) (image : UInt16) :
    (c.note a l t).framed image = c.framed image := by
  cases c
  rfl

omit [Bus M] in
theorem memory_jump (c : Cpu M H) (p : FarPointer) : (c.jump p).memory = c.memory := by
  cases c
  rfl

theorem memory_atVector (c : Cpu M H) (vector : UInt8) :
    (c.atVector vector).memory = c.framed c.flags.word := by
  rw [atVector, memory_jump, memory_pushFrame, framed_note, flags_note]

theorem memory_atService (c : Cpu M H) (vector : UInt8) :
    (c.atService vector).memory = c.framed c.flags.word := by
  show (pushFrame _).memory = _
  rw [memory_pushFrame, framed_note, flags_note]

variable [HostService M H]

/-- The interrupt pushes a frame with the image and goes on from there, through the vector table
or in a service. -/
def PushesFrame (c : Cpu M H) (vector : UInt8) (image : UInt16) : Prop :=
  ∃ d : Cpu M H, d.memory = c.framed image ∧
    interrupt vector c =
      match c.services.get? vector with
      | none => .ok () d
      | some h => finishService c.entry vector h (HostService.serve h d)

theorem pushesFrame (c : Cpu M H) (vector : UInt8) : c.PushesFrame vector c.flags.word := by
  unfold PushesFrame
  cases hreg : c.services.get? vector with
  | none => exact ⟨_, c.memory_atVector vector, interrupt_of_no_service hreg⟩
  | some h => exact ⟨_, c.memory_atService vector, interrupt_of_service hreg⟩

/-- A state whose flags are well formed, as is every image of them that it pushes: in PUSHF, in
an interrupt from outside, and in one that its instruction raises. -/
structure PushesFormed (c : Cpu M H) : Prop where
  flags : c.flags.WellFormed
  pushf : c.halted = false → c.decoded.instruction.op = .pushf →
    ∃ w, FormedImage w ∧ step c = .ok () (c.atInstruction.push w)
  interrupt : ∀ vector, ∃ w, FormedImage w ∧ c.PushesFrame vector w
  raised : ∀ vector, ∃ w, FormedImage w ∧ c.atInstruction.PushesFrame vector w

theorem PushesFormed.of_flags {c : Cpu M H} (h : c.flags.WellFormed) : c.PushesFormed := by
  have hat := (Follows.refl c).atInstruction.flags h
  constructor
  · exact h
  · intro hrunning hop
    refine ⟨_, hat.word_and, ?_⟩
    rw [step_of_running hrunning, Instruction.execute, hop]
    rfl
  · intro vector
    exact ⟨_, h.word_and, c.pushesFrame vector⟩
  · intro vector
    exact ⟨_, hat.word_and, c.atInstruction.pushesFrame vector⟩

def withMemory (c : Cpu M H) (memory : M) : Cpu M H := { c with memory := memory }

/-- The action takes one state to the other, whether it succeeds or fails. -/
def Leads {α : Type} (x : Exec M H α) (c d : Cpu M H) : Prop :=
  (∃ a, x c = .ok a d) ∨ ∃ e, x c = .error e d

/-- The states of a processor without services: it is new or reset, its memory is given any
contents, it steps, runs and is interrupted. -/
inductive Reachable : Cpu M H → Prop where
  | new (memory : M) (model : Model) (journal : Journal) : Reachable (.new memory model journal)
  | reset {c : Cpu M H} (h : c.Unserved) : Reachable c.reset
  | withMemory {c : Cpu M H} (h : Reachable c) (memory : M) : Reachable (c.withMemory memory)
  | step {c d : Cpu M H} (h : Reachable c) (hd : Leads Cpu.step c d) : Reachable d
  | interrupt {c d : Cpu M H} (h : Reachable c) (vector : UInt8)
    (hd : Leads (Cpu.interrupt vector) c d) : Reachable d
  | run {c d : Cpu M H} (h : Reachable c) (limit : Option Nat)
    (hd : Leads (Cpu.run limit) c d) : Reachable d
  | execute {c d : Cpu M H} (h : Reachable c) (x : ExecutionContext)
    (hd : Leads (Cpu.execute x) c d) : Reachable d

structure Formed (c : Cpu M H) : Prop where
  flags : c.flags.WellFormed
  unserved : c.Unserved

theorem lasting_formed : Lasting (Formed : Cpu M H → Prop) :=
  .of_unserved Formed.unserved fun h hc => ⟨h.flags hc.flags, hc.unserved.follows h⟩

omit [Bus M] [HostService M H] in
theorem Formed.leads {c d : Cpu M H} (hc : c.Formed) {α : Type} {x : Exec M H α}
    (hx : Upholds Formed x) (hd : Leads x c d) : d.Formed := by
  obtain ⟨a, e, hr, he⟩ := hx.ok hc
  rcases hd with ⟨b, hb⟩ | ⟨err, herr⟩
  · rw [hr] at hb
    cases hb
    exact he
  · rw [hr] at herr
    cases herr

omit [HostService M H] in
theorem Formed.reset {c : Cpu M H} (hc : c.Unserved) : c.reset.Formed :=
  ⟨Flags.wellFormed_reset, hc⟩

theorem Reachable.formed {c : Cpu M H} (h : c.Reachable) : c.Formed := by
  induction h with
  | new memory model journal => exact .reset Services.get?_empty
  | reset hc => exact .reset hc
  | withMemory _ memory ih => exact ⟨ih.flags, ih.unserved⟩
  | step _ hd ih => exact ih.leads (.step lasting_formed) hd
  | interrupt _ vector hd ih => exact ih.leads (.interrupt lasting_formed vector) hd
  | run _ limit hd ih => exact ih.leads (.run lasting_formed limit) hd
  | execute _ x hd ih => exact ih.leads (.runContext lasting_formed x) hd

end Cpu
end RealMode
