import RealMode.Proofs.Pc.ServedKeys

/-! # Queued keys -/
namespace RealMode.Pc

namespace Keyboard

theorem push_refused_iff (k : Keyboard) (scancode character : UInt8) :
    (k.push scancode character).1 = false ↔ 15 ≤ k.keys.length := by
  have hcapacity : capacity = 15 := rfl
  rw [push]
  split
  next hroom => exact iff_of_false (fun h => nomatch h) (by omega)
  next hfull => exact iff_of_true rfl (by omega)

def pushed (k : Keyboard) (scancode character : UInt8) : List UInt16 :=
  if (k.push scancode character).1 then [word scancode character] else []

theorem keys_push (k : Keyboard) (scancode character : UInt8) :
    (k.push scancode character).2.keys = k.keys ++ k.pushed scancode character := by
  rw [pushed, push]
  split
  next => rfl
  next => exact (List.append_nil _).symm

theorem lowByte_typed (b : UInt8) : lowByte (typed b) = if b = 0x0A then 0x0D else b :=
  lowByte_wordOf _ _

end Keyboard

section Interrupt

variable {c : Cpu Board Service} (hc : c.services = Service.table)
include hc

theorem keyboard_interrupt (vector : UInt8) :
    ∃ d, Cpu.interrupt vector c = .ok () d ∧ d.memory.keyboard =
      if readsKey vector c.regs then c.memory.keyboard.take.2 else c.memory.keyboard := by
  cases hreg : c.services.get? vector with
  | none =>
    have hquiet : ¬ readsKey vector c.regs := by
      intro hread
      obtain ⟨s, hs⟩ := Service.exists_of_readsKey hread
      rw [hc, hs] at hreg
      cases hreg
    refine ⟨_, Cpu.interrupt_of_no_service hreg, ?_⟩
    rw [if_neg hquiet]
    exact Board.keyboard_of_reaches ((Cpu.Follows.refl c).atVector vector).memory
  | some s =>
    refine ⟨_, interrupt_eq_answered hreg, ?_⟩
    rw [memory_answered, Service.keyboard_serve (hc ▸ hreg),
      readsKey_congr vector (c.get8_atService vector),
      Board.keyboard_of_reaches (c.reaches_atService vector)]

end Interrupt

/-- The call answers with the key at the head of the queue, which is no longer queued. -/
structure AnswersHead (vector : UInt8) (d c : Cpu Board Service) : Prop where
  queue : d.memory.keyboard.keys = c.memory.keyboard.keys.tail
  al : ∀ key ∈ c.memory.keyboard.keys.head?, d.regs.get8 .al = lowByte key
  ax : vector = 0x16 → ∀ key ∈ c.memory.keyboard.keys.head?, d.regs.ax = key

theorem answersHead_interrupt {c : Cpu Board Service} (hc : c.services = Service.table)
    {vector : UInt8} (hread : readsKey vector c.regs) :
    ∃ d, Cpu.interrupt vector c = .ok () d ∧ AnswersHead vector d c := by
  obtain ⟨s, hs⟩ := Service.exists_of_readsKey hread
  rw [← readsKey_congr vector (c.get8_atService vector)] at hread
  have hframe := Board.keyboard_of_reaches (c.reaches_atService vector)
  refine ⟨_, interrupt_eq_answered (hc ▸ hs), ?_⟩
  constructor
  · rw [memory_answered, Service.keyboard_serve hs, if_pos hread, hframe]
    rfl
  · intro key hkey
    obtain ⟨rest, hkeys⟩ := List.head?_eq_some_iff.mp hkey
    rw [← hframe] at hkeys
    rw [get8_answered, (Service.delivers_serve hs hread).al hkeys]
  · intro h16 key hkey
    obtain ⟨rest, hkeys⟩ := List.head?_eq_some_iff.mp hkey
    rw [← hframe] at hkeys
    rw [← Service.ax_serve hs hkeys hread h16]
    exact get_answered c vector s (r := .ax) (by decide)

def takenBy (vector : UInt8) (c : Cpu Board Service) : List UInt16 :=
  if readsKey vector c.regs then c.memory.keyboard.keys.take 1 else []

def takenByStep (c : Cpu Board Service) : List UInt16 :=
  match c.raised? with
  | some vector => takenBy vector c
  | none => []

section Conserved

variable {c : Cpu Board Service} (hc : c.services = Service.table)
include hc

theorem conserved_interrupt (vector : UInt8) :
    ∃ d, Cpu.interrupt vector c = .ok () d ∧
      takenBy vector c ++ d.memory.keyboard.keys = c.memory.keyboard.keys := by
  obtain ⟨d, hd, hkeyboard⟩ := keyboard_interrupt hc vector
  refine ⟨d, hd, ?_⟩
  rw [hkeyboard, takenBy]
  by_cases hread : readsKey vector c.regs
  · rw [if_pos hread, if_pos hread, Keyboard.take, ← List.drop_one]
    exact List.take_append_drop 1 _
  · rw [if_neg hread, if_neg hread, List.nil_append]

theorem conserved_step :
    ∃ d, Cpu.step c = .ok () d ∧
      takenByStep c ++ d.memory.keyboard.keys = c.memory.keyboard.keys := by
  rw [takenByStep]
  cases hraised : c.raised? with
  | some vector =>
    have hservices : c.atInstruction.services = Service.table :=
      (Cpu.services_atInstruction c).trans hc
    obtain ⟨d, hd, hkeys⟩ := conserved_interrupt hservices vector
    rw [takenBy, readsKey_congr vector c.get8_atInstruction, Cpu.memory_atInstruction] at hkeys
    exact ⟨d, (Cpu.step_of_raised hraised).trans hd, hkeys⟩
  | none =>
    obtain ⟨d, hd, hfollows⟩ := Cpu.step_of_quiet hraised
    exact ⟨d, hd, congrArg Keyboard.keys (Board.keyboard_of_reaches hfollows.memory)⟩

end Conserved

/-- What may happen to the keys of a machine: someone types, or the program goes on. -/
inductive Turn where
  | push (scancode character : UInt8)
  | press (scancode : UInt8)
  | paste (text : String)
  | step
  | interrupt (vector : UInt8)

namespace Machine

def queue (m : Machine Service) : List UInt16 := m.cpu.memory.keyboard.keys

def pushKey (m : Machine Service) (scancode character : UInt8) : Machine Service :=
  m.onBoard fun b => { b with keyboard := (b.keyboard.push scancode character).2 }

end Machine

namespace Turn

open Machine

def perform (m : Machine Service) : Turn → Machine Service
  | push scancode character => m.pushKey scancode character
  | press scancode => (m.pressKey scancode).2
  | paste text => m.typeText text
  | step => after Machine.step m
  | interrupt vector => after (liftCpu (Cpu.interrupt vector)) m

def taken (m : Machine Service) : Turn → List UInt16
  | step => takenByStep m.cpu
  | interrupt vector => takenBy vector m.cpu
  | push .. | press _ | paste _ => []

def accepted (m : Machine Service) : Turn → List UInt16
  | push scancode character => m.cpu.memory.keyboard.pushed scancode character
  | press scancode => m.cpu.memory.keyboard.pushed scancode (characterOf scancode)
  | paste text => text.toUTF8.toList.map Keyboard.typed
  | step | interrupt _ => []

theorem sound_perform (t : Turn) {m : Machine Service} (h : m.Sound) : (t.perform m).Sound := by
  cases t with
  | push scancode character =>
    exact h.onKeyboard fun k => (k.push scancode character).2
  | press scancode => exact h.pressKey scancode
  | paste text =>
    exact h.onKeyboard (·.paste text)
  | step => exact KeepsSound.step m h
  | interrupt vector =>
    exact KeepsSound.liftCpu (fun config => .interrupt (Installed.lasting config) vector) m h

/-- Keys leave the queue at its head and join it at its end. -/
theorem conserved (t : Turn) {m : Machine Service} (h : m.Sound) :
    t.taken m ++ (t.perform m).queue = m.queue ++ t.accepted m := by
  cases t with
  | push scancode character => exact Keyboard.keys_push _ scancode character
  | press scancode => exact Keyboard.keys_push _ scancode (characterOf scancode)
  | paste text => rfl
  | step =>
    obtain ⟨d, hd, hkeys⟩ := conserved_step h.installed.services
    rw [perform, after, Machine.step, liftCpu_apply hd]
    exact hkeys.trans (List.append_nil _).symm
  | interrupt vector =>
    obtain ⟨d, hd, hkeys⟩ := conserved_interrupt h.installed.services vector
    rw [perform, after, liftCpu_apply hd]
    exact hkeys.trans (List.append_nil _).symm

def performAll : List Turn → Machine Service → Machine Service
  | [], m => m
  | t :: turns, m => performAll turns (t.perform m)

def allTaken : List Turn → Machine Service → List UInt16
  | [], _ => []
  | t :: turns, m => t.taken m ++ allTaken turns (t.perform m)

def allAccepted : List Turn → Machine Service → List UInt16
  | [], _ => []
  | t :: turns, m => t.accepted m ++ allAccepted turns (t.perform m)

theorem sound_performAll (turns : List Turn) {m : Machine Service} (h : m.Sound) :
    (performAll turns m).Sound := by
  induction turns generalizing m with
  | nil => exact h
  | cons t turns ih => exact ih (t.sound_perform h)

/-- No key is lost, doubled or overtaken. -/
theorem all_conserved (turns : List Turn) {m : Machine Service} (h : m.Sound) :
    allTaken turns m ++ (performAll turns m).queue = m.queue ++ allAccepted turns m := by
  induction turns generalizing m with
  | nil => exact (List.append_nil _).symm
  | cons t turns ih =>
    calc allTaken (t :: turns) m ++ (performAll (t :: turns) m).queue
      _ = t.taken m ++ (allTaken turns (t.perform m) ++
            (performAll turns (t.perform m)).queue) := List.append_assoc _ _ _
      _ = t.taken m ++ (t.perform m).queue ++ allAccepted turns (t.perform m) := by
        rw [ih (t.sound_perform h), List.append_assoc]
      _ = m.queue ++ allAccepted (t :: turns) m := by
        rw [t.conserved h, List.append_assoc]
        rfl

end Turn

namespace Machine

/-- Who takes keys from the queue, and what joins it. -/
structure HandlesKeys (m : Machine Service) : Prop where
  reads : ∀ vector, readsKey vector m.cpu.regs →
    (∃ d, Cpu.interrupt vector m.cpu = .ok () d ∧ AnswersHead vector d m.cpu) ∧
      (m.cpu.Calls vector → ∃ k, Machine.step m = .ok () k ∧ AnswersHead vector k.cpu m.cpu)
  others : ∀ vector, ¬ readsKey vector m.cpu.regs →
    (∃ d, Cpu.interrupt vector m.cpu = .ok () d ∧ d.memory.keyboard = m.cpu.memory.keyboard) ∧
      (m.cpu.Calls vector →
        ∃ k, Machine.step m = .ok () k ∧ k.cpu.memory.keyboard = m.cpu.memory.keyboard)
  ports : ∀ port, (Bus.portIn m.cpu.memory port).bus.keyboard = m.cpu.memory.keyboard
  refused : ∀ scancode character,
    (m.cpu.memory.keyboard.push scancode character).1 = false ↔ 15 ≤ m.queue.length
  pasted : ∀ text, (m.typeText text).queue = m.queue ++ text.toUTF8.toList.map Keyboard.typed

section Delivery

variable {m : Machine Service} (hm : m.Sound) {vector : UInt8}
include hm

theorem reads_of_sound (hread : readsKey vector m.cpu.regs) :
    (∃ d, Cpu.interrupt vector m.cpu = .ok () d ∧ AnswersHead vector d m.cpu) ∧
      (m.cpu.Calls vector →
        ∃ k, Machine.step m = .ok () k ∧ AnswersHead vector k.cpu m.cpu) := by
  refine ⟨answersHead_interrupt hm.installed.services hread, fun hcalls => ?_⟩
  rw [← readsKey_congr vector m.cpu.get8_atInstruction] at hread
  obtain ⟨d, hd, hqueue, hal, hax⟩ := answersHead_interrupt hm.services_atInstruction hread
  rw [Cpu.memory_atInstruction] at hqueue hal hax
  exact ⟨_, step_of_raised hcalls.raised?_eq hd, hqueue, hal, hax⟩

theorem keyboard_of_not_reads (hquiet : ¬ readsKey vector m.cpu.regs) :
    (∃ d, Cpu.interrupt vector m.cpu = .ok () d ∧ d.memory.keyboard = m.cpu.memory.keyboard) ∧
      (m.cpu.Calls vector →
        ∃ k, Machine.step m = .ok () k ∧ k.cpu.memory.keyboard = m.cpu.memory.keyboard) := by
  constructor
  · obtain ⟨d, hd, hkeyboard⟩ := keyboard_interrupt hm.installed.services vector
    rw [if_neg hquiet] at hkeyboard
    exact ⟨d, hd, hkeyboard⟩
  · intro hcalls
    obtain ⟨d, hd, hkeyboard⟩ := keyboard_interrupt hm.services_atInstruction vector
    rw [readsKey_congr vector m.cpu.get8_atInstruction, if_neg hquiet,
      Cpu.memory_atInstruction] at hkeyboard
    exact ⟨_, step_of_raised hcalls.raised?_eq hd, hkeyboard⟩

end Delivery

theorem keyboard_new (config : Config) (journal : Journal) :
    (new config journal : Machine Service).cpu.memory.keyboard = .empty := by
  have hvectors := Board.keyboard_of_reaches
    (b := .new config.clamped.memoryKb config.clamped.echo) Bus.Reaches.refl.installVectors
  refine (Board.keyboard_of_reaches (reaches_boot _)).trans ?_
  rw [Cpu.new, Cpu.memory_reset, hvectors]
  rfl

theorem Sound.handlesKeys {m : Machine Service} (hm : m.Sound) : m.HandlesKeys := by
  constructor
  · exact fun vector hread => reads_of_sound hm hread
  · exact fun vector hquiet => keyboard_of_not_reads hm hquiet
  · exact fun port => Board.keyboard_of_reaches (Bus.Reaches.refl.portIn port)
  · exact Keyboard.push_refused_iff _
  · exact fun text => rfl

/-- Whoever types and whatever the program does, keys are read once and in the order in which they
have been accepted. The queue of a new machine is empty, and a typed byte arrives as it is, but for
a line feed. -/
theorem keys_delivered_in_order {m : Machine Service} (hm : m.Reachable) (turns : List Turn) :
    Turn.allTaken turns m ++ (Turn.performAll turns m).queue =
        m.queue ++ Turn.allAccepted turns m ∧
      (Turn.performAll turns m).HandlesKeys ∧
      (∀ config journal, (new config journal : Machine Service).queue = []) ∧
      ∀ b, lowByte (Keyboard.typed b) = if b = 0x0A then 0x0D else b := by
  refine ⟨Turn.all_conserved turns hm.sound, ?_, fun config journal => ?_, Keyboard.lowByte_typed⟩
  · exact (Turn.sound_performAll turns hm.sound).handlesKeys
  · rw [queue, keyboard_new]
    rfl

theorem keyboard_poised (first second : UInt8) (ax dx ds : UInt16) :
    (poised first second ax dx ds).cpu.memory.keyboard = .empty := by
  obtain ⟨k, hk, hplaced⟩ := (new .standard .silent : Machine Service).cpu.memory
    |>.exists_reaches_placeProgram 0x0700 ⟨callsImage first second, ""⟩
  rw [memory_poised, Board.keyboard_of_reaches hplaced]
  exact (Board.keyboard_of_reaches hk).trans (keyboard_new _ _)

section Pressed

variable (m : Machine Service) (scancode : UInt8)

theorem regs_pressKey : (m.pressKey scancode).2.cpu.regs = m.cpu.regs := rfl

theorem keyboard_pressKey : (m.pressKey scancode).2.cpu.memory.keyboard =
    (m.cpu.memory.keyboard.press scancode).2 := rfl

end Pressed

/-- A and Enter are pressed, and a program reads the former. -/
theorem letter_read_before_enter :
    let turns : List Turn := [.press 0x1E, .press 0x1C, .interrupt 0x16]
    (poised 0x16 0x20 0 0 0).Reachable ∧ Turn.allTaken turns (poised 0x16 0x20 0 0 0) = [0x1E61] ∧
      (Turn.performAll turns (poised 0x16 0x20 0 0 0)).queue = [0x1C0D] := by
  intro turns
  have hm := reachable_poised 0x16 0x20 0 0 0
  have htaken : Turn.allTaken turns (poised 0x16 0x20 0 0 0) = [0x1E61] := by
    simp only [turns, Turn.allTaken, Turn.taken, Turn.perform, takenBy, regs_pressKey,
      keyboard_pressKey, regs_poised, keyboard_poised]
    decide
  have haccepted : Turn.allAccepted turns (poised 0x16 0x20 0 0 0) = [0x1E61, 0x1C0D] := by
    simp only [turns, Turn.allAccepted, Turn.accepted, Turn.perform, keyboard_pressKey,
      keyboard_poised]
    decide
  have hempty : (poised 0x16 0x20 0 0 0).queue = [] := by
    rw [queue, keyboard_poised]
    rfl
  obtain ⟨hconserved, -⟩ := keys_delivered_in_order hm turns
  rw [htaken, haccepted, hempty] at hconserved
  exact ⟨hm, htaken, List.cons.inj hconserved |>.2⟩

end Machine
end RealMode.Pc
