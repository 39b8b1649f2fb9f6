import RealMode.Pc.Service
import RealMode.Proofs.InstructionReach
import RealMode.Proofs.Pc.ScrolledWindow

/-! # Steady states -/
namespace RealMode.Pc

namespace Display

variable (d : Display)

theorem failed_lineFeed : d.lineFeed.failed = d.failed := by
  by_cases h : d.screen.row < rows - 1
  · rw [lineFeed, if_pos h]
  · rw [d.lineFeed_of_last h]

theorem failed_advance : d.advance.failed = d.failed := by
  unfold advance
  split
  next => rfl
  next => exact failed_lineFeed _

theorem failed_putCharacter (character : UInt8) (colour : Option UInt8) (count : Nat) :
    (d.putCharacter character colour count).failed = d.failed := by
  obtain ⟨page, hput⟩ := d.exists_putCharacter character colour count
  rw [hput]

theorem failed_teletype (character : UInt8) : (d.teletype character).failed = d.failed := by
  unfold teletype
  split
  next => rfl
  split
  next => exact d.failed_lineFeed
  split
  next => rfl
  split
  next => rfl
  next => rw [failed_advance, failed_putCharacter]

theorem failed_writeRun (cells : List Cell) : (Video.writeRun d cells).failed = d.failed := by
  unfold Video.writeRun
  induction cells generalizing d with
  | nil => rfl
  | cons x cells ih => rw [List.foldl_cons, ih, failed_advance, failed_putCharacter]

end Display

def Screen.OnPage (s : Screen) : Prop := s.row < rows ∧ s.col < columns

/-- The cursor is no further off the page than that of another screen. -/
structure Screen.NoFurther (s t : Screen) : Prop where
  row : s.row ≤ max t.row (rows - 1)
  col : s.col ≤ max t.col (columns - 1)

namespace Screen.NoFurther

theorem onPage {s t : Screen} (h : s.NoFurther t) (ht : t.OnPage) : s.OnPage := by
  have hrow := h.row
  have hcol := h.col
  obtain ⟨htrow, htcol⟩ := ht
  constructor <;> omega

theorem refl (s : Screen) : s.NoFurther s := ⟨Nat.le_max_left _ _, Nat.le_max_left _ _⟩

theorem trans {s t u : Screen} (h : s.NoFurther t) (k : t.NoFurther u) : s.NoFurther u := by
  obtain ⟨hrow, hcol⟩ := h
  obtain ⟨krow, kcol⟩ := k
  constructor <;> omega

theorem home (s t : Screen) : s.home.NoFurther t := ⟨Nat.zero_le _, Nat.zero_le _⟩

theorem moveTo (s t : Screen) (row col : Nat) : (s.moveTo row col).NoFurther t :=
  ⟨Nat.le_trans (Nat.min_le_right _ _) (Nat.le_max_right _ _),
    Nat.le_trans (Nat.min_le_right _ _) (Nat.le_max_right _ _)⟩

theorem withCol {s t : Screen} (h : s.NoFurther t) {col : Nat} (hcol : col ≤ s.col) :
    ({ s with col := col } : Screen).NoFurther t := ⟨h.row, Nat.le_trans hcol h.col⟩

theorem lineFeed {d : Display} {t : Screen} (h : d.screen.NoFurther t) :
    d.lineFeed.screen.NoFurther t := by
  by_cases hlt : d.screen.row < rows - 1
  · have hrow : d.screen.row + 1 ≤ rows - 1 := hlt
    rw [Display.lineFeed, if_pos hlt]
    exact ⟨Nat.le_trans hrow (Nat.le_max_right _ _), h.col⟩
  · rw [d.lineFeed_of_last hlt]
    exact h

theorem advance {d : Display} {t : Screen} (h : d.screen.NoFurther t) :
    d.advance.screen.NoFurther t := by
  unfold Display.advance
  split
  next hlt =>
    have hcol : d.screen.col + 1 ≤ columns - 1 := Nat.le_sub_one_of_lt hlt
    exact ⟨h.row, Nat.le_trans hcol (Nat.le_max_right _ _)⟩
  next => exact lineFeed (h.withCol (Nat.zero_le _))

theorem teletype {d : Display} {t : Screen} (h : d.screen.NoFurther t) (character : UInt8) :
    (d.teletype character).screen.NoFurther t := by
  unfold Display.teletype
  split
  next => exact h.withCol (Nat.zero_le _)
  split
  next => exact h.lineFeed
  split
  next => exact h.withCol (Nat.sub_le _ _)
  split
  next => exact h
  next => exact advance (d := d.putCharacter character (some defaultColour) 1) h

theorem writeRun {d : Display} {t : Screen} (h : d.screen.NoFurther t) (cells : List Cell) :
    (Video.writeRun d cells).screen.NoFurther t := by
  unfold Video.writeRun
  induction cells generalizing d with
  | nil => exact h
  | cons x cells ih =>
    exact ih (advance (d := d.putCharacter x.character (some x.colour) 1) h)

end Screen.NoFurther

/-- What the bus does not reach. -/
structure Board.Fixed (k b : Board) : Prop where
  screen : k.screen = b.screen
  failed : k.failed = b.failed
  keyboard : k.keyboard = b.keyboard
  memoryKb : k.memoryKb = b.memoryKb
  echo : k.echo = b.echo
  exitCode : k.exitCode = b.exitCode

theorem Board.fixed_of_reaches {b k : Board} (h : Bus.Reaches b k) : k.Fixed b := by
  induction h with
  | refl => exact ⟨rfl, rfl, rfl, rfl, rfl, rfl⟩
  | write _ _ _ ih => exact ⟨ih.screen, ih.failed, ih.keyboard, ih.memoryKb, ih.echo, ih.exitCode⟩
  | writeBlock _ _ _ ih =>
    exact ⟨ih.screen, ih.failed, ih.keyboard, ih.memoryKb, ih.echo, ih.exitCode⟩
  | @portIn k _ port ih =>
    obtain ⟨retrace, hin⟩ : ∃ v, k.afterPortIn port = { k with retrace := v } := by
      rw [Board.afterPortIn]
      split
      next => exact ⟨_, rfl⟩
      next => exact ⟨k.retrace, rfl⟩
    have hbus : (Bus.portIn k port).bus = { k with retrace := retrace } := hin
    rw [hbus]
    exact ⟨ih.screen, ih.failed, ih.keyboard, ih.memoryKb, ih.echo, ih.exitCode⟩
  | portOut _ _ _ ih =>
    exact ⟨ih.screen, ih.failed, ih.keyboard, ih.memoryKb, ih.echo, ih.exitCode⟩

/-- A board with the settings of another one, the cursor no further off the page. With the cursor
on it no access misses the page. -/
structure Board.Steady (k b : Board) : Prop where
  memoryKb : k.memoryKb = b.memoryKb
  echo : k.echo = b.echo
  screen : k.screen.NoFurther b.screen
  failed : b.screen.OnPage → k.failed = b.failed

namespace Board.Steady

theorem trans {b k l : Board} (h : l.Steady k) (h' : k.Steady b) : l.Steady b :=
  ⟨h.memoryKb.trans h'.memoryKb, h.echo.trans h'.echo, h.screen.trans h'.screen,
    fun hb => (h.failed (h'.screen.onPage hb)).trans (h'.failed hb)⟩

theorem of_reaches {b k : Board} (h : Bus.Reaches b k) : k.Steady b := by
  have hfixed := Board.fixed_of_reaches h
  exact ⟨hfixed.memoryKb, hfixed.echo, hfixed.screen ▸ .refl _, fun _ => hfixed.failed⟩

end Board.Steady

variable {H : Type}

/-- A state that instructions and services can make of another one. -/
structure Steady (d c : Cpu Board H) : Prop where
  services : d.services = c.services
  model : d.model = c.model
  memory : d.memory.Steady c.memory
  flags : c.flags.WellFormed → d.flags.WellFormed

namespace Steady

theorem of_follows {d c : Cpu Board H} (h : d.Follows c) : Steady d c :=
  ⟨h.services, h.model, .of_reaches h.memory, h.flags⟩

theorem trans {c d e : Cpu Board H} (h : Steady e d) (k : Steady d c) : Steady e c :=
  ⟨h.services.trans k.services, h.model.trans k.model, h.memory.trans k.memory,
    fun hc => h.flags (k.flags hc)⟩

theorem follows {c d e : Cpu Board H} (h : Steady d c) (k : e.Follows d) : Steady e c :=
  (of_follows k).trans h

theorem withMemory (c : Cpu Board H) {k : Board} (h : k.Steady c.memory) :
    Steady { c with memory := k } c := ⟨rfl, rfl, h, id⟩

end Steady
end RealMode.Pc
