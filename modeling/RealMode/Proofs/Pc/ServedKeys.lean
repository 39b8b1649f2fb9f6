import RealMode.Proofs.Pc.AnsweredCall

/-! # Keys in services -/
namespace RealMode.Pc

namespace Keyboard

theorem take_eq_of_keys {k : Keyboard} {key : UInt16} {rest : List UInt16}
    (h : k.keys = key :: rest) : k.take = (some key, ⟨rest⟩) := by
  rw [take, h]
  rfl

end Keyboard

namespace Board

theorem keyboard_of_reaches {b k : Board} (h : Bus.Reaches b k) : k.keyboard = b.keyboard :=
  (fixed_of_reaches h).keyboard

end Board

variable {H : Type}

/-- What a call that reads a key does with the queue: its head is taken and comes back in AL. -/
structure Delivers (d c : Cpu Board H) : Prop where
  keyboard : d.memory.keyboard = c.memory.keyboard.take.2
  al : ∀ {key rest}, c.memory.keyboard.keys = key :: rest → d.regs.get8 .al = lowByte key

namespace Bios

/-- Functions 00 and 10 of the keyboard service. -/
def readsKey (r : Registers) : Bool :=
  match (r.get8 .ah).toNat with
  | 0x00 | 0x10 => true
  | _ => false

theorem takeKey_eq (c : Cpu Board H) : takeKey c = (c.memory.keyboard.take.1,
    { c with memory := { c.memory with keyboard := c.memory.keyboard.take.2 } }) := rfl

theorem keyboard_readKey (c : Cpu Board H) :
    (readKey c).memory.keyboard = c.memory.keyboard.take.2 := by
  rw [readKey, takeKey_eq]
  cases c.memory.keyboard.take.1 with
  | some key => simp only [Cpu.memory_setReg]
  | none => simp only [Cpu.memory_setReg, Cpu.memory_note]

theorem ax_readKey {c : Cpu Board H} {key : UInt16} {rest : List UInt16}
    (hkeys : c.memory.keyboard.keys = key :: rest) : (readKey c).regs.ax = key := by
  rw [readKey, takeKey_eq, Keyboard.take_eq_of_keys hkeys]
  rfl

theorem keyboard_eq_readKey {c : Cpu Board H} (h : readsKey c.regs) : keyboard c = readKey c := by
  rw [readsKey] at h
  split at h
  case h_1 hah | h_2 hah =>
    rw [keyboard, keyboardFunction?, hah]
    rfl
  case h_3 => cases h

theorem delivers_keyboard {c : Cpu Board H} (h : readsKey c.regs) : Delivers (keyboard c) c := by
  rw [keyboard_eq_readKey h]
  exact ⟨keyboard_readKey c, fun hkeys => congrArg lowByte (ax_readKey hkeys)⟩

theorem readsKey_of_taking {r : Registers} (h : .taking ∈ keyboardEffects r) : readsKey r := by
  rw [keyboardEffects] at h
  split at h
  case h_1 hah | h_2 hah =>
    rw [readsKey, hah]
    rfl
  all_goals simp at h

end Bios

namespace Dos

/-- Functions 01, 07 and 08 read a key; 06 does so if DL is FF. -/
def readsKey (r : Registers) : Bool :=
  match (r.get8 .ah).toNat with
  | 0x01 | 0x07 | 0x08 => true
  | 0x06 => r.get8 .dl = 0xFF
  | _ => false

theorem keyboard_readCharacter (c : Cpu Board H) :
    (readCharacter c).2.memory.keyboard = c.memory.keyboard.take.2 := by
  rw [readCharacter, Bios.takeKey_eq]
  cases c.memory.keyboard.take.1 with
  | some key => rfl
  | none => simp only [Cpu.memory_note]

theorem delivers_readSilently (c : Cpu Board H) : Delivers (readSilently c) c := by
  constructor
  · rw [readSilently, Cpu.memory_setReg8, keyboard_readCharacter]
  · intro key rest hkeys
    rw [readSilently, readCharacter, Bios.takeKey_eq, Keyboard.take_eq_of_keys hkeys]
    exact Registers.get8_set8 _ _ _ _

theorem delivers_readWithEcho (c : Cpu Board H) : Delivers (readWithEcho c) c := by
  constructor
  · rw [readWithEcho, Cpu.memory_setReg8]
    split
    next => exact keyboard_readCharacter c
    next => exact keyboard_readCharacter c
  · intro key rest hkeys
    rw [readWithEcho, readCharacter, Bios.takeKey_eq, Keyboard.take_eq_of_keys hkeys]
    exact Registers.get8_set8 _ _ _ _

theorem delivers_directConsole {c : Cpu Board H} (hread : c.regs.get8 .dl = 0xFF) :
    Delivers (directConsole c) c := by
  constructor
  · rw [directConsole, if_pos hread, Bios.takeKey_eq]
    cases c.memory.keyboard.take.1 with
    | some key => simp only [Cpu.memory_setFlag, Cpu.memory_setReg8]
    | none => simp only [Cpu.memory_setFlag, Cpu.memory_setReg8]
  · intro key rest hkeys
    rw [directConsole, if_pos hread, Bios.takeKey_eq, Keyboard.take_eq_of_keys hkeys]
    exact Registers.get8_set8 _ _ _ _

theorem delivers_serve {c : Cpu Board H} (h : readsKey c.regs) : Delivers (serve c) c := by
  let d := (c.note .bios .trace fun _ => callText c.regs).setFlag .carry false
  have hd {e : Cpu Board H} (he : Delivers e d) : Delivers e c := ⟨he.keyboard, he.al⟩
  rw [readsKey] at h
  split at h <;> rename_i hah
  case h_1 =>
    have hserve : serve c = readWithEcho d := by
      simp only [serve, function?, hah]
      rfl
    rw [hserve]
    exact hd (delivers_readWithEcho d)
  case h_2 | h_3 =>
    have hserve : serve c = readSilently d := by
      simp only [serve, function?, hah]
      rfl
    rw [hserve]
    exact hd (delivers_readSilently d)
  case h_4 =>
    have hserve : serve c = directConsole d := by
      simp only [serve, function?, hah]
      rfl
    rw [hserve]
    exact hd (delivers_directConsole (of_decide_eq_true h))
  case h_5 => cases h

theorem readsKey_of_taking {r : Registers} (h : .taking ∈ effects r) : readsKey r := by
  rw [effects] at h
  split at h
  case h_3 hah | h_7 hah | h_8 hah =>
    rw [readsKey, hah]
    rfl
  case h_6 hah =>
    have hread : r.get8 .dl = 0xFF := by
      by_contra hno
      rw [consoleEffects, if_neg hno] at h
      simp at h
    rw [readsKey, hah]
    exact decide_eq_true hread
  all_goals simp at h

end Dos

def readsKey (vector : UInt8) (r : Registers) : Bool :=
  if vector = 0x16 then Bios.readsKey r
  else if vector = 0x21 then Dos.readsKey r
  else false

theorem readsKey_congr (vector : UInt8) {q r : Registers} (h : ∀ a, q.get8 a = r.get8 a) :
    readsKey vector q = readsKey vector r := by
  simp only [readsKey, Bios.readsKey, Dos.readsKey, h]

theorem eq_of_readsKey {vector : UInt8} {r : Registers} (h : readsKey vector r) :
    (vector = 0x16 ∧ Bios.readsKey r) ∨ (vector = 0x21 ∧ Dos.readsKey r) := by
  by_cases h16 : vector = 0x16
  · rw [readsKey, if_pos h16] at h
    exact .inl ⟨h16, h⟩
  · by_cases h21 : vector = 0x21
    · rw [readsKey, if_neg h16, if_pos h21] at h
      exact .inr ⟨h21, h⟩
    · rw [readsKey, if_neg h16, if_neg h21] at h
      cases h

namespace Service

variable {vector : UInt8} {s : Service}

theorem vector_iff_of_get? (h : table.get? vector = some s) :
    (vector = 0x16 ↔ s = .keyboard) ∧ (vector = 0x21 ↔ s = .dos) := by
  obtain ⟨e, he, rfl, rfl⟩ := exists_entry h
  have hvectors : ∀ e ∈ biosEntries ++ dosEntries,
      (e.vector = 0x16 ↔ e.service = .keyboard) ∧ (e.vector = 0x21 ↔ e.service = .dos) := by
    decide
  exact hvectors e he

theorem delivers_serve (h : table.get? vector = some s) {c : Cpu Board Service}
    (hread : readsKey vector c.regs) : Delivers (s.serve c) c := by
  obtain ⟨hkeyboard, hdos⟩ := vector_iff_of_get? h
  rcases eq_of_readsKey hread with ⟨h16, hr⟩ | ⟨h21, hr⟩
  · obtain rfl := hkeyboard.mp h16
    exact Bios.delivers_keyboard hr
  · obtain rfl := hdos.mp h21
    exact Dos.delivers_serve hr

/-- Only calls that read a key take one. -/
theorem readsKey_of_taking (h : table.get? vector = some s) {r : Registers}
    (htaking : .taking ∈ s.effects r) : readsKey vector r := by
  obtain ⟨hkeyboard, hdos⟩ := vector_iff_of_get? h
  cases s with
  | keyboard =>
    obtain rfl := hkeyboard.mpr rfl
    exact Bios.readsKey_of_taking htaking
  | dos =>
    obtain rfl := hdos.mpr rfl
    exact Dos.readsKey_of_taking (List.mem_of_ne_of_mem (by decide) htaking)
  | _ => simp [effects, Video.effects] at htaking

theorem keyboard_serve (h : table.get? vector = some s) (c : Cpu Board Service) :
    (s.serve c).memory.keyboard =
      if readsKey vector c.regs then c.memory.keyboard.take.2 else c.memory.keyboard := by
  by_cases hread : readsKey vector c.regs
  · rw [if_pos hread, (delivers_serve h hread).keyboard]
  · rw [if_neg hread]
    exact (s.confined_serve c).board.keyboard (mt (readsKey_of_taking h) hread)

theorem exists_of_readsKey {r : Registers} (h : readsKey vector r) :
    ∃ s, table.get? vector = some s := by
  have hserved : vector ∈ servedVectors := by
    obtain ⟨rfl, -⟩ | ⟨rfl, -⟩ := eq_of_readsKey h <;> decide
  obtain ⟨s, hs, -⟩ := get?_table hserved
  exact ⟨s, hs⟩

theorem ax_serve (h : table.get? vector = some s) {c : Cpu Board Service} {key : UInt16}
    {rest : List UInt16} (hkeys : c.memory.keyboard.keys = key :: rest)
    (hread : readsKey vector c.regs) (h16 : vector = 0x16) : (s.serve c).regs.ax = key := by
  obtain rfl := (vector_iff_of_get? h).1.mp h16
  rw [h16] at hread
  exact (congrArg (fun d => d.regs.ax) (Bios.keyboard_eq_readKey hread)).trans
    (Bios.ax_readKey hkeys)

end Service
end RealMode.Pc
