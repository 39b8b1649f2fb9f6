import RealMode.Proofs.MemorySimulation
import RealMode.Proofs.Pc.SoundMachine

/-! # Switching a machine off and on -/
namespace RealMode.Pc

/-- Boards that differ at most in what has gone to the host. -/
def Board.Alike (b k : Board) : Prop := ∃ output, k = { b with echoed := output }

namespace Board

theorem simulation_alike : Bus.Simulation Alike where
  read h a _ := by
    obtain ⟨output, rfl⟩ := h
    rfl
  write h a _ v := by
    obtain ⟨output, rfl⟩ := h
    exact ⟨output, rfl⟩
  writeBlock h a _ data := by
    obtain ⟨output, rfl⟩ := h
    exact ⟨output, rfl⟩

namespace Alike

variable {b k : Board} (h : b.Alike k)
include h

theorem screen : b.screen = k.screen := by
  obtain ⟨output, rfl⟩ := h
  rfl

theorem memoryKb : b.memoryKb = k.memoryKb := by
  obtain ⟨output, rfl⟩ := h
  rfl

theorem withProgram (segment : UInt16) :
    ({ b with programSegment := segment } : Board).Alike { k with programSegment := segment } := by
  obtain ⟨output, rfl⟩ := h
  exact ⟨output, rfl⟩

theorem publishScreen : b.publishScreen.Alike k.publishScreen := by
  have s := simulation_alike
  unfold Board.publishScreen
  rw [h.screen]
  exact s.setByte (s.setByte (s.setByte h _ _ _) _ _ _) _ _ _

theorem onDisplay (f : Display → Display) : (b.onDisplay f).Alike (k.onDisplay f) := by
  obtain ⟨output, rfl⟩ := h
  exact ⟨output, rfl⟩

theorem initDataArea : b.initDataArea.Alike k.initDataArea := by
  have s := simulation_alike
  unfold Board.initDataArea
  refine s.setByte (s.setBytes (publishScreen ?_) _ _ _) _ _ _
  refine s.setByte (s.setWord (s.setWord ?_ _ _ _) _ _ _) _ _ _
  have hequipment := s.setWord h dataSegment equipmentOffset equipmentWord
  rw [hequipment.memoryKb]
  exact s.setWord hequipment _ _ _

theorem buildPrefix (segment memoryTop : UInt16) (tail : String) :
    (Pc.buildPrefix b segment memoryTop tail).Alike (Pc.buildPrefix k segment memoryTop tail) := by
  have s := simulation_alike
  have hsave {b k : Board} (h : b.Alike k) (slot : UInt16) (vector : UInt8) :
      (saveVector segment b slot vector).Alike (saveVector segment k slot vector) := by
    unfold saveVector
    rw [s.readVector h]
    exact s.setWord (s.setWord h _ _ _) _ _ _
  unfold Pc.buildPrefix
  apply withProgram
  refine s.setByte (s.setBytes (s.setByte ?_ _ _ _) _ _ _) _ _ _
  refine s.fill (s.fill (s.setBytes (s.setWord ?_ _ _ _) _ _ _) _ _ _ _) _ _ _ _
  refine hsave (hsave (hsave ?_ _ _) _ _) _ _
  exact s.setWord (s.setBytes (s.fill h _ _ _ _) _ _ _) _ _ _

theorem placeProgram (segment : UInt16) (p : Program) :
    (Pc.placeProgram b segment p).Alike (Pc.placeProgram k segment p) := by
  have s := simulation_alike
  unfold Pc.placeProgram
  rw [h.memoryKb]
  exact s.setWord (s.setBytes (h.buildPrefix _ _ _) _ _ _) _ _ _

end Alike

theorem alike_reset (b : Board) : b.reset.Alike (.new b.memoryKb b.echo) := by
  unfold Board.new Board.reset
  exact Alike.onDisplay ⟨ByteArray.empty, rfl⟩ Display.clear

end Board

/-- Processors that differ at most in their services, their journals and the board's output. -/
structure Alike (c d : Cpu Board Service) : Prop where
  regs : c.regs = d.regs
  flags : c.flags = d.flags
  memory : c.memory.Alike d.memory
  steps : c.steps = d.steps
  halted : c.halted = d.halted
  model : c.model = d.model

namespace Alike

variable {c d : Cpu Board Service}

theorem reset {b : Board} {model : Model} {journal : Journal} (hboard : c.memory.reset.Alike b)
    (hmodel : c.model = model) :
    Alike { ({ c with memory := c.memory.reset } : Cpu Board Service).reset with steps := 0 }
      (.new b model journal) := by
  rw [Cpu.new, Cpu.reset, Cpu.reset]
  refine ⟨rfl, rfl, ?_, rfl, rfl, hmodel⟩
  dsimp only
  exact Board.simulation_alike.installVectors hboard

variable (h : Alike c d)
include h

theorem register (vector : UInt8) (p : FarPointer) (s t : Service) :
    Alike (c.register vector p s) (d.register vector p t) := by
  have hmemory := Board.simulation_alike.setByte
    (Board.simulation_alike.writeVector h.memory vector p) p.segment p.offset iretOpcode
  cases c
  cases d
  exact ⟨h.regs, h.flags, hmemory, h.steps, h.halted, h.model⟩

theorem registerAll (entries : List Service.EntryPoint) :
    Alike (Service.registerAll c entries) (Service.registerAll d entries) := by
  induction entries generalizing c d with
  | nil => exact h
  | cons e entries ih =>
    rw [Service.registerAll_cons, Service.registerAll_cons]
    exact ih (h.register e.vector e.pointer _ _)

theorem note {category category' : Category} {level level' : Level} {text text' : Unit → String} :
    Alike (c.note category level text) (d.note category' level' text') :=
  ⟨h.regs, h.flags, h.memory, h.steps, h.halted, h.model⟩

theorem boot : Alike (Pc.boot c) (Pc.boot d) := by
  unfold Pc.boot Service.installDos Service.installBios
  refine note (registerAll (note (registerAll ?_ _)) _)
  dsimp only
  rw [h.regs]
  exact ⟨rfl, h.flags, h.memory.initDataArea, h.steps, h.halted, h.model⟩

theorem startProgram (segment : UInt16) (p : Program) :
    Alike (Pc.startProgram c segment p) (Pc.startProgram d segment p) := by
  have hplaced : Alike
      { c with
        memory := placeProgram c.memory segment p
        regs := entryRegisters segment
        flags := c.flags.setWord entryFlags
        halted := false }
      { d with
        memory := placeProgram d.memory segment p
        regs := entryRegisters segment
        flags := d.flags.setWord entryFlags
        halted := false } :=
    ⟨rfl, by rw [h.flags], h.memory.placeProgram segment p, h.steps, rfl, h.model⟩
  exact hplaced.note

end Alike

namespace Machine

/-- The machine without its journal and without what has gone to the host. -/
def offRecord (m : Machine Service) : Machine Service :=
  m.onCpu fun c => { c with
    memory := { c.memory with echoed := ByteArray.empty }
    journal := .silent }

def loadMounted : Option Program → Action Service Unit
  | none => pure ()
  | some p => load p.image p.tail

theorem offRecord_eq {c d : Cpu Board Service} (h : Alike c d) (hservices : c.services = d.services)
    (config : Config) (program : Option Program) :
    offRecord ⟨c, config, program⟩ = offRecord ⟨d, config, program⟩ := by
  obtain ⟨output, hmemory⟩ := h.memory
  simp only [offRecord, onCpu, h.regs, h.flags, h.steps, h.halted, h.model, hservices, hmemory]

theorem new_eq {config : Config} (h : config.clamped = config) (journal : Journal) :
    (new config journal : Machine Service) =
      ⟨boot (.new (.new config.memoryKb config.echo) config.model journal), config, none⟩ := by
  unfold new
  rw [h]

theorem restart_eq (m : Machine Service) : m.restart =
    ⟨boot { ({ m.cpu with memory := m.cpu.memory.reset } : Cpu Board Service).reset with
      steps := 0 }, m.config, m.program⟩ := by
  cases m
  rfl

theorem reset_of_no_program {m : Machine Service} (hp : m.program = none) :
    m.reset = m.restart := by
  cases m
  cases hp
  rfl

theorem reset_of_program {m : Machine Service} {p : Program} (hp : m.program = some p)
    (himage : imageFault? p.image = none) :
    m.reset = ⟨startProgram m.restart.cpu m.config.loadSegment p, m.config, some p⟩ := by
  rw [reset, restart_eq, hp]
  dsimp only
  rw [load_of_imageFault himage]

namespace Sound

variable {m : Machine Service} (h : m.Sound) (journal : Journal)
include h

theorem alike_restart : Alike m.restart.cpu (new m.config journal : Machine Service).cpu := by
  have hboard := Board.alike_reset m.cpu.memory
  rw [h.installed.memoryKb, h.installed.echo] at hboard
  rw [restart_eq, new_eq h.clamped]
  exact Alike.boot (.reset hboard h.installed.model)

theorem services_restart :
    m.restart.cpu.services = (new m.config journal : Machine Service).cpu.services :=
  h.restart.installed.services.trans (sound_new m.config journal).installed.services.symm

/-- All that reset makes of a machine, it makes from the settings and the mounted program. -/
theorem offRecord_reset : ∃ k, loadMounted m.program (new m.config journal) = .ok () k ∧
    m.reset.offRecord = k.offRecord := by
  have halike := h.alike_restart journal
  have hservices := h.services_restart journal
  rw [new_eq h.clamped] at halike hservices ⊢
  cases hp : m.program with
  | none =>
    refine ⟨_, rfl, ?_⟩
    rw [reset_of_no_program hp, restart_eq, hp]
    exact offRecord_eq halike hservices m.config none
  | some p =>
    have himage := h.image p hp
    refine ⟨_, load_of_imageFault himage _ _, ?_⟩
    rw [reset_of_program hp himage]
    exact offRecord_eq (halike.startProgram m.config.loadSegment p) hservices m.config (some p)

theorem offRecord_unmount : ∃ k, unmount programMount.id m = .ok () k ∧
    k.offRecord = (new m.config journal : Machine Service).offRecord := by
  have halike := h.alike_restart journal
  have hservices := h.services_restart journal
  rw [new_eq h.clamped] at halike hservices ⊢
  exact ⟨_, rfl, offRecord_eq halike hservices m.config none⟩

end Sound

/-- Whatever has been done with a machine, switching it off and on makes a new one of its present
settings, with the program loaded that is mounted; taking the program out makes one without. -/
theorem power_cycle_eq_new (config : Config) (journal journal' : Journal)
    (operations : List Operation) :
    let m := performAll operations (.new config journal)
    (∃ k, loadMounted m.program (.new m.config journal') = .ok () k ∧
        m.reset.offRecord = k.offRecord) ∧
      ∃ k, unmount programMount.id m = .ok () k ∧
        k.offRecord = (new m.config journal' : Machine Service).offRecord := by
  intro m
  have hsound : m.Sound := sound_performAll operations (sound_new config journal)
  exact ⟨hsound.offRecord_reset journal', hsound.offRecord_unmount journal'⟩

end Machine
end RealMode.Pc
