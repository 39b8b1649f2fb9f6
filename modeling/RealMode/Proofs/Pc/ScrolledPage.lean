import RealMode.Pc.Screen
import RealMode.Proofs.LawfulBus

/-! # The cells of a scrolled page

Every row is read before it is overwritten.
-/
namespace RealMode.Pc

theorem position_lt {row col : Nat} (hrow : row < rows) (hcol : col < columns) :
    position row col < cellCount := by
  simp only [position, cellCount, rows, columns] at *
  omega

theorem position_inj {row row' col col' : Nat} (hcol : col < columns) (hcol' : col' < columns) :
    position row col = position row' col' ↔ row = row' ∧ col = col' := by
  simp only [position, columns] at *
  omega

theorem loop?_succ {α : Type} (n : Nat) (f : Nat → α → Option α) (a : α) :
    loop? (n + 1) f a = (loop? n f a).bind (f n) := Nat.fold_succ ..

theorem loop?_eq {α : Type} {n : Nat} {f : Nat → α → Option α} {g : Nat → α → α}
    (h : ∀ i < n, ∀ a, f i a = some (g i a)) (a : α) :
    loop? n f a = some (n.fold (fun i _ a => g i a) a) := by
  induction n with
  | zero => rfl
  | succ n ih =>
    have hn := ih fun i hi => h i (Nat.lt_succ_of_lt hi)
    rw [loop?_succ, hn, Option.bind_some, h n (Nat.lt_succ_self n), Nat.fold_succ]

namespace TextPage

variable (p : TextPage)

theorem lt_size {i : Nat} : i < p.bytes.size ↔ i < pageSize := by rw [p.size_eq]

theorem byte_of_lt {i : Nat} (hi : i < p.bytes.size) : p.byte i = p.bytes[i] := by
  rw [byte, byte?, dif_pos (p.lt_size.mp hi), Option.getD_some]

theorem byte?_eq {i : Nat} (hi : i < pageSize) : p.byte? i = some (p.byte i) := by
  rw [byte, byte?, dif_pos hi, Option.getD_some]

theorem byte_of_le {i : Nat} (hi : pageSize ≤ i) : p.byte i = 0 := by
  rw [byte, byte?, dif_neg (Nat.not_lt.mpr hi), Option.getD_none]

theorem cell?_eq {n : Nat} (hn : n < cellCount) : p.cell? n = some (p.cell n) := by
  have hsize : pageSize = 2 * cellCount := rfl
  rw [cell?, p.byte?_eq (by omega), p.byte?_eq (by omega)]
  rfl

theorem exists_setByte? {i : Nat} (v : UInt8) (hi : i < pageSize) :
    ∃ q, p.setByte? i v = some q ∧ ∀ j, q.byte j = if j = i then v else p.byte j := by
  refine ⟨_, dif_pos hi, fun j => ?_⟩
  by_cases hj : j < pageSize
  · rw [byte_of_lt _ ((lt_size _).mpr hj), byte_of_lt _ ((lt_size _).mpr hj)]
    simp only [@eq_comm _ j i]
    exact getElem_setByte _ _ _ _ _ ((lt_size _).mpr hj) _
  · rw [byte_of_le _ (by omega), byte_of_le _ (by omega), if_neg (by omega)]

theorem exists_setCells? {n : Nat} (data : ByteArray) (h : 2 * n + data.size ≤ pageSize) :
    ∃ q, p.setCells? n data = some q ∧ ∀ j, q.byte j =
      if hd : 2 * n ≤ j ∧ j < 2 * n + data.size then data[j - 2 * n] else p.byte j := by
  have hfit : 2 * n + data.size ≤ p.bytes.size := by rw [p.size_eq]; exact h
  refine ⟨_, dif_pos h, fun j => ?_⟩
  by_cases hj : j < pageSize
  · rw [byte_of_lt _ ((lt_size _).mpr hj), byte_of_lt _ (p.lt_size.mpr hj)]
    exact getElem_copySlice_of_le hfit (p.lt_size.mpr hj) _
  · rw [dif_neg (by omega), byte_of_le _ (by omega), byte_of_le _ (by omega)]

theorem exists_setCharacter? {n : Nat} (hn : n < cellCount) (character : UInt8)
    (colour : Option UInt8) :
    ∃ q, p.setCharacter? n character colour = some q ∧
      ∀ k, q.cell k = if k = n then ⟨character, colour.getD (p.cell n).colour⟩ else p.cell k := by
  have hsize : pageSize = 2 * cellCount := rfl
  obtain ⟨q, hq, hcharacter⟩ := p.exists_setByte? (i := 2 * n) character (by omega)
  cases colour with
  | none =>
    refine ⟨q, hq, fun k => ?_⟩
    have hodd : ¬ 2 * k + 1 = 2 * n := by omega
    rw [cell, hcharacter, hcharacter, if_neg hodd]
    by_cases hk : k = n
    · rw [if_pos (by omega), if_pos hk, hk]
      rfl
    · rw [if_neg (by omega), if_neg hk]
      rfl
  | some colour =>
    obtain ⟨q', hq', hcolour⟩ := q.exists_setByte? (i := 2 * n + 1) colour (by omega)
    refine ⟨q', by rw [setCharacter?, hq]; exact hq', fun k => ?_⟩
    have heven : ¬ 2 * k = 2 * n + 1 := by omega
    rw [cell, hcolour, hcolour, hcharacter, hcharacter, if_neg heven]
    by_cases hk : k = n
    · rw [if_pos (by omega), if_pos (by omega), if_pos hk]
      rfl
    · rw [if_neg (by omega), if_neg (by omega), if_neg (by omega), if_neg hk]
      rfl

theorem setCharacter?_eq {n : Nat} (hn : n < cellCount) (character : UInt8)
    (colour : Option UInt8) :
    p.setCharacter? n character colour = some (p.setCharacter n character colour) := by
  obtain ⟨q, hq, -⟩ := p.exists_setCharacter? hn character colour
  rw [setCharacter, hq, Option.getD_some]

theorem cell_setCharacter {n : Nat} (character colour : UInt8) (hn : n < cellCount) (k : Nat) :
    (p.setCharacter n character (some colour)).cell k =
      if k = n then ⟨character, colour⟩ else p.cell k := by
  obtain ⟨q, hq, hcell⟩ := p.exists_setCharacter? hn character (some colour)
  rw [setCharacter, hq]
  exact hcell k

theorem setCharacters?_eq (n : Nat) (character : UInt8) (colour : Option UInt8) (count : Nat) :
    p.setCharacters? n character colour count =
      some ((min count (cellCount - n)).fold
        (fun i _ p => p.setCharacter (n + i) character colour) p) :=
  loop?_eq (fun _ hi p => p.setCharacter?_eq (by omega) character colour) p

theorem exists_setCells?_cell {n width : Nat} {data : ByteArray} (hsize : data.size = 2 * width)
    (hfit : n + width ≤ cellCount) :
    ∃ q, p.setCells? n data = some q ∧ ∀ k, q.cell k =
      if hk : n ≤ k ∧ k < n + width then
        ⟨data[2 * (k - n)], data[2 * (k - n) + 1]⟩
      else p.cell k := by
  have hpage : 2 * n + data.size ≤ pageSize := by
    rw [hsize, pageSize]
    omega
  obtain ⟨q, hq, hbyte⟩ := p.exists_setCells? data hpage
  refine ⟨q, hq, fun k => ?_⟩
  rw [cell, hbyte, hbyte]
  by_cases hk : n ≤ k ∧ k < n + width
  · rw [dif_pos (by omega), dif_pos (by omega), dif_pos hk]
    have heven : 2 * k - 2 * n = 2 * (k - n) := by omega
    have hodd : 2 * k + 1 - 2 * n = 2 * (k - n) + 1 := by omega
    simp only [heven, hodd]
  · rw [dif_neg (by omega), dif_neg (by omega), dif_neg hk]
    rfl

theorem exists_cells? {n count : Nat} (hfit : n + count ≤ cellCount) :
    ∃ data, p.cells? n count = some data ∧ data.size = 2 * count ∧
      ∀ i (h : i < data.size), data[i] = p.byte (2 * n + i) := by
  have hs := p.size_eq
  have hsize : pageSize = 2 * cellCount := rfl
  refine ⟨_, if_pos (by omega), ?_, fun i hi => ?_⟩
  · rw [ByteArray.size_extract]
    omega
  · rw [ByteArray.size_extract] at hi
    rw [p.byte_of_lt (by omega)]
    simp only [ByteArray.getElem_extract]

end TextPage

theorem size_blankCells (n : Nat) (colour : UInt8) : (blankCells n colour).size = 2 * n :=
  size_tabulate _ _

namespace Window

/-- The window is not empty and ends on the page. -/
structure Fits (w : Window) : Prop where
  top_le : w.top ≤ w.bottom
  left_le : w.left ≤ w.right
  bottom_lt : w.bottom < rows
  right_lt : w.right < columns

def Covers (w : Window) (row col : Nat) : Prop :=
  (w.top ≤ row ∧ row ≤ w.bottom) ∧ w.left ≤ col ∧ col ≤ w.right

instance (w : Window) (row col : Nat) : Decidable (w.Covers row col) :=
  inferInstanceAs (Decidable (_ ∧ _))

variable {w : Window}

theorem fits_ofCorners {top left bottom right : UInt8}
    (h : (ofCorners top left bottom right).isEmpty = false) :
    (ofCorners top left bottom right).Fits := by
  simp only [isEmpty, Bool.or_eq_false_iff, decide_eq_false_iff_not, Nat.not_lt] at h
  have hrows : 0 < rows := by decide
  have hcolumns : 0 < columns := by decide
  exact ⟨h.1, h.2, by simp only [ofCorners]; omega, by simp only [ofCorners]; omega⟩

theorem fits_full : full.Fits := ⟨by decide, by decide, by decide, by decide⟩

theorem Fits.not_isEmpty (h : w.Fits) : w.isEmpty = false := by
  have := h.top_le
  have := h.left_le
  simp only [isEmpty, Bool.or_eq_false_iff, decide_eq_false_iff_not]
  omega

theorem Fits.position_add_width_le (h : w.Fits) {row : Nat} (hrow : row ≤ w.bottom) :
    position row w.left + w.width ≤ cellCount := by
  have hbottom := h.bottom_lt
  have hleft := h.left_le
  have hright := h.right_lt
  simp only [position, width, cellCount, rows, columns] at *
  omega

theorem Fits.mem_row_iff (h : w.Fits) {row target col : Nat} (hcol : col < columns) :
    position target w.left ≤ position row col ∧
        position row col < position target w.left + w.width ↔
      row = target ∧ w.left ≤ col ∧ col ≤ w.right := by
  have hleft := h.left_le
  have hright := h.right_lt
  simp only [position, width, columns] at *
  omega

theorem Fits.shift_pos (h : w.Fits) (lines : Nat) : 0 < w.shift lines := by
  have := h.top_le
  simp only [shift, height]
  split <;> omega

end Window

namespace TextPage

/-- The page `q` is the page `p` with new cells in one row of the window. -/
def RowWritten (w : Window) (p q : TextPage) (target : Nat) (content : Nat → Cell) : Prop :=
  ∀ row, ∀ col < columns, q.cell (position row col) =
    if row = target ∧ w.left ≤ col ∧ col ≤ w.right then content col else p.cell (position row col)

variable (p : TextPage) {w : Window} (h : w.Fits)
include h

theorem exists_copyRow? {source target : Nat} (hsource : source ≤ w.bottom)
    (htarget : target ≤ w.bottom) :
    ∃ q, p.copyRow? w source target = some q ∧
      RowWritten w p q target fun col => p.cell (position source col) := by
  obtain ⟨data, hdata, hsize, hbyte⟩ := p.exists_cells? (h.position_add_width_le hsource)
  obtain ⟨q, hq, hcell⟩ := p.exists_setCells?_cell hsize (h.position_add_width_le htarget)
  refine ⟨q, by rw [copyRow?, hdata]; exact hq, fun row col hcol => ?_⟩
  rw [hcell]
  by_cases hin : row = target ∧ w.left ≤ col ∧ col ≤ w.right
  · rw [dif_pos ((h.mem_row_iff hcol).mpr hin), if_pos hin]
    obtain ⟨rfl, hleft, -⟩ := hin
    have hplace : position source w.left + (position row col - position row w.left) =
        position source col := by
      simp only [position]
      omega
    show _ = p.cell (position source col)
    rw [hbyte, hbyte, ← hplace, cell]
    congr 2 <;> omega
  · rw [dif_neg (mt (h.mem_row_iff hcol).mp hin), if_neg hin]

theorem exists_blankRow? {target : Nat} (htarget : target ≤ w.bottom) (colour : UInt8) :
    ∃ q, p.blankRow? w target colour = some q ∧
      RowWritten w p q target fun _ => ⟨blankCharacter, colour⟩ := by
  obtain ⟨q, hq, hcell⟩ :=
    p.exists_setCells?_cell (size_blankCells _ colour) (h.position_add_width_le htarget)
  refine ⟨q, hq, fun row col hcol => ?_⟩
  rw [hcell]
  by_cases hin : row = target ∧ w.left ≤ col ∧ col ≤ w.right
  · rw [dif_pos ((h.mem_row_iff hcol).mpr hin), if_pos hin]
    simp only [blankCells, getElem_tabulate]
    rw [if_pos (by omega), if_neg (by omega)]
  · rw [dif_neg (mt (h.mem_row_iff hcol).mp hin), if_neg hin]

/-- One step of a scroll: the row takes the cells `shift` rows below it, or blanks. -/
theorem exists_scrollRow? (shift : Nat) {target : Nat} (colour : UInt8)
    (htarget : target ≤ w.bottom) :
    ∃ q, (if target + shift ≤ w.bottom then p.copyRow? w (target + shift) target
        else p.blankRow? w target colour) = some q ∧
      RowWritten w p q target fun col =>
        if target + shift ≤ w.bottom then p.cell (position (target + shift) col)
        else ⟨blankCharacter, colour⟩ := by
  by_cases hbelow : target + shift ≤ w.bottom
  · simp only [if_pos hbelow]
    exact p.exists_copyRow? h hbelow htarget
  · simp only [if_neg hbelow]
    exact p.exists_blankRow? h htarget colour

/-- The first `n` rows of the window have been scrolled, the others are still as they were. -/
theorem exists_scrollRows? (colour : UInt8) {shift n : Nat} (hshift : 0 < shift)
    (hn : n ≤ w.height) :
    ∃ q, loop? n (fun i p =>
        if w.top + i + shift ≤ w.bottom then p.copyRow? w (w.top + i + shift) (w.top + i)
        else p.blankRow? w (w.top + i) colour) p = some q ∧
      ∀ row, ∀ col < columns, q.cell (position row col) =
        if w.Covers row col ∧ row < w.top + n then
          if row + shift ≤ w.bottom then p.cell (position (row + shift) col)
          else ⟨blankCharacter, colour⟩
        else p.cell (position row col) := by
  have htop := h.top_le
  induction n with
  | zero =>
    refine ⟨p, rfl, fun row col _ => ?_⟩
    rw [if_neg]
    rintro ⟨⟨⟨hrow, -⟩, -⟩, hlt⟩
    omega
  | succ n ih =>
    have hlast : w.top + n ≤ w.bottom := by
      rw [Window.height] at hn
      omega
    obtain ⟨q, hq, hcells⟩ := ih (by omega)
    obtain ⟨q', hq', hwritten⟩ := q.exists_scrollRow? h shift colour hlast
    refine ⟨q', by rw [loop?_succ, hq]; exact hq', fun row col hcol => ?_⟩
    rw [hwritten row col hcol]
    by_cases hin : row = w.top + n ∧ w.left ≤ col ∧ col ≤ w.right
    · -- The row that is read lies below the rows that have been overwritten.
      have hbelow : ¬ (w.Covers (row + shift) col ∧ row + shift < w.top + n) := by
        rintro ⟨-, hlt⟩
        omega
      have hnow : w.Covers row col ∧ row < w.top + (n + 1) :=
        ⟨⟨⟨by omega, by omega⟩, hin.2⟩, by omega⟩
      rw [if_pos hin, if_pos hnow, ← hin.1]
      dsimp only
      rw [hcells _ col hcol, if_neg hbelow]
    · rw [if_neg hin, hcells _ col hcol]
      by_cases hdone : w.Covers row col ∧ row < w.top + n
      · have hnow : w.Covers row col ∧ row < w.top + (n + 1) := ⟨hdone.1, by omega⟩
        rw [if_pos hdone, if_pos hnow]
      · rw [if_neg hdone, if_neg]
        rintro ⟨hcovers, hlt⟩
        have hnot : ¬ row < w.top + n := fun hlt => hdone ⟨hcovers, hlt⟩
        exact hin ⟨by omega, hcovers.2⟩

theorem exists_scrollUp? (lines : Nat) (colour : UInt8) :
    ∃ q, p.scrollUp? w lines colour = some q ∧ ∀ row, ∀ col < columns,
      q.cell (position row col) =
        if w.Covers row col then
          if row + w.shift lines ≤ w.bottom then p.cell (position (row + w.shift lines) col)
          else ⟨blankCharacter, colour⟩
        else p.cell (position row col) := by
  obtain ⟨q, hq, hcells⟩ := p.exists_scrollRows? h colour (h.shift_pos lines) (Nat.le_refl _)
  refine ⟨q, by rw [scrollUp?, h.not_isEmpty, if_neg Bool.false_ne_true]; exact hq, ?_⟩
  intro row col hcol
  rw [hcells row col hcol]
  by_cases hin : w.Covers row col
  · have hlast : row < w.top + w.height := by
      obtain ⟨⟨-, hbottom⟩, -⟩ := hin
      have htop := h.top_le
      rw [Window.height]
      omega
    rw [if_pos ⟨hin, hlast⟩, if_pos hin]
  · rw [if_neg (fun hboth => hin hboth.1), if_neg hin]

/-- Scrolling up moves the cells of a window by whole rows and leaves all other cells alone. -/
theorem cell_scrollUp (lines : Nat) (colour : UInt8) (row : Nat) {col : Nat}
    (hcol : col < columns) :
    (p.scrollUp w lines colour).cell (position row col) =
      if w.Covers row col then
        if row + w.shift lines ≤ w.bottom then p.cell (position (row + w.shift lines) col)
        else ⟨blankCharacter, colour⟩
      else p.cell (position row col) := by
  obtain ⟨q, hq, hcells⟩ := p.exists_scrollUp? h lines colour
  rw [scrollUp, hq]
  exact hcells row col hcol

omit h in
theorem scrollUp?_of_isEmpty (hempty : w.isEmpty = true) (lines : Nat) (colour : UInt8) :
    p.scrollUp? w lines colour = some p := by
  rw [scrollUp?, if_pos hempty]

omit h in
theorem scrollUp?_eq (hw : w.isEmpty = false → w.Fits) (lines : Nat) (colour : UInt8) :
    p.scrollUp? w lines colour = some (p.scrollUp w lines colour) := by
  cases hempty : w.isEmpty with
  | true => rw [scrollUp, p.scrollUp?_of_isEmpty hempty, Option.getD_some]
  | false =>
    obtain ⟨q, hq, -⟩ := p.exists_scrollUp? (hw hempty) lines colour
    rw [scrollUp, hq, Option.getD_some]

end TextPage

namespace Display

variable (d : Display)

theorem clear_eq : d.clear =
    { d with screen := d.screen.home, page := d.page.scrollUp .full 0 defaultColour } := by
  rw [clear, onPage_of_some (d.page.scrollUp?_eq (fun _ => Window.fits_full) _ _)]

theorem lineFeed_of_last (h : ¬ d.screen.row < rows - 1) :
    d.lineFeed = { d with page := d.page.scrollUp .full 1 defaultColour } := by
  rw [lineFeed, if_neg h, onPage_of_some (d.page.scrollUp?_eq (fun _ => Window.fits_full) _ _)]

theorem exists_putCharacter (character : UInt8) (colour : Option UInt8) (count : Nat) :
    ∃ page, d.putCharacter character colour count = { d with page := page } :=
  ⟨_, onPage_of_some (d.page.setCharacters?_eq _ _ _ _)⟩

end Display
end RealMode.Pc
