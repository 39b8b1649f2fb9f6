import RealMode.Proofs.Pc.LawfulBoard
import RealMode.Proofs.Pc.ScrolledPage

/-! # The screen as a view of an endless terminal

The text page shows the last 25 rows of a terminal whose rows never end, fed with the same bytes.
-/
namespace RealMode.Pc

/-- A terminal of 80 columns with rows without end. -/
structure Terminal where
  row : Nat
  col : Nat
  cell : Nat → Nat → Cell

namespace Terminal

def blank : Cell := ⟨blankCharacter, defaultColour⟩

def start : Terminal := ⟨0, 0, fun _ _ => blank⟩

def lineFeed (t : Terminal) : Terminal := { t with row := t.row + 1 }

def write (t : Terminal) (character : UInt8) : Terminal :=
  { t with
    cell := fun row col =>
      if row = t.row ∧ col = t.col then ⟨character, defaultColour⟩ else t.cell row col }

def advance (t : Terminal) : Terminal :=
  if t.col + 1 < columns then { t with col := t.col + 1 } else lineFeed { t with col := 0 }

def feed (t : Terminal) (character : UInt8) : Terminal :=
  if character = carriageReturn then { t with col := 0 }
  else if character = lineFeedCharacter then t.lineFeed
  else if character = backspace then { t with col := t.col - 1 }
  else if character = bell then t
  else (t.write character).advance

/-- The first row that a screen shows which ends with the row of the cursor. -/
def top (t : Terminal) : Nat := t.row - (rows - 1)

/-- The cursor is in a row of 80 columns, and nothing has been written below that. -/
structure Tidy (t : Terminal) : Prop where
  col_lt : t.col < columns
  below : ∀ row col, t.row < row → t.cell row col = blank

theorem tidy_start : start.Tidy := ⟨by decide, fun _ _ _ => rfl⟩

namespace Tidy

variable {t : Terminal} (h : t.Tidy)
include h

theorem withCol {col : Nat} (hcol : col < columns) : ({ t with col := col } : Terminal).Tidy :=
  ⟨hcol, h.below⟩

theorem lineFeed : t.lineFeed.Tidy :=
  ⟨h.col_lt, fun row col hrow => h.below row col (Nat.lt_of_succ_lt hrow)⟩

theorem write (character : UInt8) : (t.write character).Tidy := by
  refine ⟨h.col_lt, fun row col hrow => ?_⟩
  have hne : ¬ (row = t.row ∧ col = t.col) := fun heq => Nat.ne_of_gt hrow heq.1
  exact (if_neg hne).trans (h.below row col hrow)

theorem advance : t.advance.Tidy := by
  unfold Terminal.advance
  split
  next hcol => exact h.withCol hcol
  next => exact (h.withCol (by decide)).lineFeed

theorem feed (character : UInt8) : (t.feed character).Tidy := by
  unfold Terminal.feed
  split
  next => exact h.withCol (by decide)
  split
  next => exact h.lineFeed
  split
  next => exact h.withCol (Nat.lt_of_le_of_lt (Nat.sub_le _ _) h.col_lt)
  split
  next => exact h
  next => exact (h.write character).advance

end Tidy
end Terminal

namespace Display

structure Shows (d : Display) (t : Terminal) : Prop where
  row : d.screen.row = min t.row (rows - 1)
  col : d.screen.col = t.col
  cells : ∀ row < rows, ∀ col < columns,
    d.page.cell (position row col) = t.cell (row + t.top) col

variable {d : Display} {t : Terminal}

theorem cell_clear (d : Display) {row col : Nat} (hrow : row < rows) (hcol : col < columns) :
    d.clear.page.cell (position row col) = Terminal.blank := by
  have hcovers : Window.full.Covers row col :=
    ⟨⟨Nat.zero_le _, Nat.le_sub_one_of_lt hrow⟩, Nat.zero_le _, Nat.le_sub_one_of_lt hcol⟩
  have hlast : ¬ row + Window.full.shift 0 ≤ Window.full.bottom := by
    have hshift : Window.full.shift 0 = rows := by decide
    have hbottom : Window.full.bottom < rows := by decide
    omega
  rw [clear_eq, TextPage.cell_scrollUp _ Window.fits_full 0 _ row hcol, if_pos hcovers, if_neg hlast]
  rfl

theorem shows_clear (d : Display) : d.clear.Shows .start := by
  refine ⟨?_, ?_, fun _ hrow _ hcol => d.cell_clear hrow hcol⟩
  all_goals
    rw [clear_eq]
    rfl

theorem cell_scrollUp_one (p : TextPage) {row col : Nat} (hrow : row < rows)
    (hcol : col < columns) :
    (p.scrollUp .full 1 defaultColour).cell (position row col) =
      if row + 1 < rows then p.cell (position (row + 1) col) else Terminal.blank := by
  have hcovers : Window.full.Covers row col :=
    ⟨⟨Nat.zero_le _, Nat.le_sub_one_of_lt hrow⟩, Nat.zero_le _, Nat.le_sub_one_of_lt hcol⟩
  have hshift : Window.full.shift 1 = 1 := by decide
  have hbottom : row + 1 ≤ Window.full.bottom ↔ row + 1 < rows := by
    have : Window.full.bottom + 1 = rows := by decide
    omega
  rw [TextPage.cell_scrollUp _ Window.fits_full 1 _ row hcol, if_pos hcovers, hshift]
  simp only [hbottom]
  rfl

namespace Shows

theorem withCol (h : d.Shows t) (col : Nat) :
    Shows { d with screen := { d.screen with col := col } } { t with col := col } :=
  ⟨h.row, rfl, h.cells⟩

/-- On the last row a line feed moves the view instead of the cursor. -/
theorem lineFeed (h : d.Shows t) (ht : t.Tidy) : d.lineFeed.Shows t.lineFeed := by
  have hrows : rows = 25 := rfl
  have hrow := h.row
  by_cases hlast : d.screen.row < rows - 1
  · rw [Display.lineFeed, if_pos hlast]
    refine ⟨?_, h.col, fun row hr col hc => ?_⟩
    · simp only [Terminal.lineFeed]
      omega
    · have htop : t.lineFeed.top = t.top := by
        simp only [Terminal.top, Terminal.lineFeed]
        omega
      rw [htop]
      exact h.cells row hr col hc
  · have htop : t.lineFeed.top = t.top + 1 := by
      simp only [Terminal.top, Terminal.lineFeed]
      omega
    rw [d.lineFeed_of_last hlast]
    refine ⟨?_, h.col, fun row hr col hc => ?_⟩
    · simp only [Terminal.lineFeed]
      omega
    · rw [cell_scrollUp_one _ hr hc, htop]
      split
      next hnext =>
        rw [h.cells (row + 1) hnext col hc, Nat.add_assoc, Nat.add_comm 1]
        rfl
      next hend =>
        refine (ht.below _ _ ?_).symm
        simp only [Terminal.top]
        omega

theorem putCharacter (h : d.Shows t) (ht : t.Tidy) (character : UInt8) :
    (d.putCharacter character (some defaultColour) 1).Shows (t.write character) := by
  have hrows : rows = 25 := rfl
  have hrow := h.row
  have hcol := ht.col_lt
  have hcursor : d.screen.cursor = position (min t.row (rows - 1)) t.col := by
    rw [Screen.cursor, h.row, h.col]
  have hlt : d.screen.cursor < cellCount := by
    rw [hcursor]
    exact position_lt (by omega) hcol
  have hput : d.putCharacter character (some defaultColour) 1 =
      { d with page := d.page.setCharacter d.screen.cursor character (some defaultColour) } := by
    have hcharacters := d.page.setCharacters?_eq d.screen.cursor character (some defaultColour) 1
    rw [Nat.min_eq_left (by omega)] at hcharacters
    exact onPage_of_some hcharacters
  rw [hput]
  refine ⟨h.row, h.col, fun row hr col hc => ?_⟩
  have hplace : position row col = d.screen.cursor ↔ row + t.top = t.row ∧ col = t.col := by
    rw [hcursor, position_inj hc hcol, Terminal.top]
    omega
  rw [TextPage.cell_setCharacter _ _ _ hlt, h.cells row hr col hc]
  simp only [hplace]
  rfl

theorem advance (h : d.Shows t) (ht : t.Tidy) : d.advance.Shows t.advance := by
  unfold Display.advance Terminal.advance
  rw [h.col]
  split
  next => exact h.withCol _
  next => exact (h.withCol 0).lineFeed (ht.withCol (by decide))

theorem teletype (h : d.Shows t) (ht : t.Tidy) (character : UInt8) :
    (d.teletype character).Shows (t.feed character) := by
  unfold Display.teletype Terminal.feed
  split
  next => exact h.withCol 0
  split
  next => exact h.lineFeed ht
  split
  next =>
    rw [h.col]
    exact h.withCol _
  split
  next => exact h
  next => exact (h.putCharacter ht character).advance (ht.write character)

theorem foldl_teletype (h : d.Shows t) (ht : t.Tidy) (s : List UInt8) :
    (s.foldl Display.teletype d).Shows (s.foldl Terminal.feed t) := by
  induction s generalizing d t with
  | nil => exact h
  | cons character s ih => exact ih (h.teletype ht character) (ht.feed character)

end Shows
end Display

namespace Board

theorem display_teletype (b : Board) (character : UInt8) :
    (b.teletype character).display = b.display.teletype character :=
  display_onDisplay b (·.teletype character)

theorem display_foldl_teletype (b : Board) (s : List UInt8) :
    (s.foldl teletype b).display = s.foldl Display.teletype b.display := by
  induction s generalizing b with
  | nil => rfl
  | cons character s ih => rw [List.foldl_cons, ih, display_teletype, List.foldl_cons]

theorem shows_reset (b : Board) : b.reset.display.Shows .start := by
  rw [reset, display_onDisplay]
  exact Display.shows_clear _

theorem read_foldl_teletype (b : Board) (s : List UInt8) {a : Nat} (ha : a < memorySize)
    (hoff : OffPage a) : (s.foldl teletype b).read a = b.read a := by
  induction s generalizing b with
  | nil => rfl
  | cons character s ih =>
    exact (ih (b.teletype character)).trans (b.read_onDisplay (·.teletype character) ha hoff)

/-- Output to a board that has just been switched on shows as the last rows of an endless
terminal, and it reaches no byte of memory but those of the page. -/
theorem teletype_refines_terminal (b : Board) (s : List UInt8) :
    let k := s.foldl teletype b.reset
    let t := s.foldl Terminal.feed .start
    (k.screen.row = min t.row (rows - 1) ∧ k.screen.col = t.col) ∧
      (∀ row < rows, ∀ col < columns,
        k.page.cell (position row col) = t.cell (row + (t.row - (rows - 1))) col) ∧
      ∀ a < memorySize, OffPage a → Bus.read k a = Bus.read b.reset a := by
  intro k t
  have hshows : k.display.Shows t := by
    rw [display_foldl_teletype]
    exact b.shows_reset.foldl_teletype Terminal.tidy_start s
  exact ⟨⟨hshows.row, hshows.col⟩, hshows.cells, fun a ha hoff => read_foldl_teletype _ s ha hoff⟩

/-- A letter in row 25 of the terminal stands in the last row of the page. -/
theorem letter_shown_in_last_row :
    let k := (List.replicate 25 lineFeedCharacter ++ [0x41]).foldl teletype (new 640 false).reset
    (24 < rows ∧ 0 < columns) ∧ (0x7100 < memorySize ∧ OffPage 0x7100) ∧
      (k.screen.row = 24 ∧ k.screen.col = 1) ∧
      k.page.cell (position 24 0) = ⟨0x41, defaultColour⟩ ∧
      Bus.read k 0x7100 = Bus.read (new 640 false).reset 0x7100 := by
  intro k
  have hrow : 24 < rows := by decide
  have hcol : 0 < columns := by decide
  have ha : 0x7100 < memorySize := by decide
  have hoff : OffPage 0x7100 := Or.inl (by decide)
  obtain ⟨hcursor, hcells, hread⟩ := teletype_refines_terminal (new 640 false)
    (List.replicate 25 lineFeedCharacter ++ [0x41])
  exact ⟨⟨hrow, hcol⟩, ⟨ha, hoff⟩, hcursor, hcells 24 hrow 0 hcol, hread 0x7100 ha hoff⟩

end Board
end RealMode.Pc
