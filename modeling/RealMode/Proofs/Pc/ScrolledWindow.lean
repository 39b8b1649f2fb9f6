import RealMode.Proofs.Pc.ScrolledPage

/-! # Windows that scroll both ways

Scrolling down is scrolling up in a mirror: turn the rows of the window upside down, scroll up and
turn them back.
-/
namespace RealMode.Pc

namespace Window

variable {w : Window}

theorem not_covers_of_isEmpty (h : w.isEmpty = true) (row col : Nat) : ¬ w.Covers row col := by
  rintro ⟨hrows, hcols⟩
  simp only [isEmpty, Bool.or_eq_true, decide_eq_true_eq] at h
  omega

theorem shift_eq (w : Window) (lines : UInt8) :
    (if lines = 0 ∨ w.height < lines.toNat then w.height else lines.toNat) =
      w.shift lines.toNat := by
  have hzero : lines = 0 ↔ lines.toNat = 0 := UInt8.toNat_inj.symm
  simp only [shift, hzero]
  split <;> split <;> omega

end Window

namespace TextPage

theorem ext_cell {p q : TextPage} (h : ∀ n < cellCount, p.cell n = q.cell n) : p = q := by
  have hsize : pageSize = 2 * cellCount := rfl
  have hbytes : p.bytes = q.bytes := by
    apply ByteArray.ext_getElem
    · rw [p.size_eq, q.size_eq]
    · intro i hp hq
      have hi : i < pageSize := p.lt_size.mp hp
      obtain ⟨heven, hodd⟩ := Cell.mk.inj (h (i / 2) (by omega))
      rw [← p.byte_of_lt hp, ← q.byte_of_lt hq]
      rcases Nat.mod_two_eq_zero_or_one i with hmod | hmod
      · rwa [show 2 * (i / 2) = i by omega] at heven
      · rwa [show 2 * (i / 2) + 1 = i by omega] at hodd
  cases p
  cases q
  cases hbytes
  rfl

theorem ext_position {p q : TextPage} (h : ∀ row < rows, ∀ col < columns,
    p.cell (position row col) = q.cell (position row col)) : p = q := by
  apply ext_cell
  intro n hn
  have hcol : n % columns < columns := Nat.mod_lt _ (by decide)
  have hrow : n / columns < rows := Nat.div_lt_of_lt_mul hn
  have hposition : position (n / columns) (n % columns) = n := by
    rw [position, Nat.mul_comm]
    exact Nat.div_add_mod n columns
  rw [← hposition]
  exact h _ hrow _ hcol

def ofCells (f : Nat → Nat → Cell) : TextPage :=
  ⟨tabulate pageSize fun i =>
    let cell := f (i / 2 / columns) (i / 2 % columns)
    if i % 2 = 0 then cell.character else cell.colour, size_tabulate _ _⟩

theorem cell_ofCells (f : Nat → Nat → Cell) {row col : Nat} (hrow : row < rows)
    (hcol : col < columns) : (ofCells f).cell (position row col) = f row col := by
  have hplace := position_lt hrow hcol
  have hsize : pageSize = 2 * cellCount := rfl
  have hdiv : position row col / columns = row := by
    rw [position, Nat.mul_comm, Nat.mul_add_div (by decide), Nat.div_eq_of_lt hcol, Nat.add_zero]
  have hmod : position row col % columns = col := by
    rw [position, Nat.mul_comm, Nat.mul_add_mod, Nat.mod_eq_of_lt hcol]
  have hbyte {i : Nat} (hi : i < pageSize) : (ofCells f).byte i =
      if i % 2 = 0 then (f (i / 2 / columns) (i / 2 % columns)).character
      else (f (i / 2 / columns) (i / 2 % columns)).colour := by
    rw [byte_of_lt _ ((ofCells f).lt_size.mpr hi)]
    simp only [ofCells, getElem_tabulate]
  rw [cell, hbyte (by omega), hbyte (by omega), if_pos (by omega), if_neg (by omega),
    show 2 * position row col / 2 = position row col by omega,
    show (2 * position row col + 1) / 2 = position row col by omega, hdiv, hmod]

variable (p : TextPage) (w : Window)

/-- The rows of the window turned upside down. -/
def flipRows : TextPage :=
  ofCells fun row col =>
    if w.Covers row col then p.cell (position (w.top + w.bottom - row) col)
    else p.cell (position row col)

theorem cell_flipRows {row col : Nat} (hrow : row < rows) (hcol : col < columns) :
    (p.flipRows w).cell (position row col) =
      if w.Covers row col then p.cell (position (w.top + w.bottom - row) col)
      else p.cell (position row col) :=
  cell_ofCells _ hrow hcol

section Mirror

variable {w} (h : w.Fits)
include h

theorem flipRows_flipRows : (p.flipRows w).flipRows w = p := by
  have hbottom := h.bottom_lt
  apply ext_position
  intro row hrow col hcol
  rw [cell_flipRows _ w hrow hcol]
  by_cases hin : w.Covers row col
  · obtain ⟨⟨htop, hlow⟩, hcols⟩ := hin
    have hmirror : w.Covers (w.top + w.bottom - row) col := ⟨⟨by omega, by omega⟩, hcols⟩
    rw [if_pos ⟨⟨htop, hlow⟩, hcols⟩, p.cell_flipRows w (by omega) hcol, if_pos hmirror,
      show w.top + w.bottom - (w.top + w.bottom - row) = row by omega]
  · rw [if_neg hin, p.cell_flipRows w hrow hcol, if_neg hin]

/-- A row that is written turns up in the mirrored row. -/
theorem flipRows_of_rowWritten {q q' : TextPage} {target : Nat} {content : Nat → Cell}
    (htarget : w.top ≤ target ∧ target ≤ w.bottom) (hq : RowWritten w p q target content)
    (hq' : RowWritten w (p.flipRows w) q' (w.top + w.bottom - target) content) :
    q.flipRows w = q' := by
  have hbottom := h.bottom_lt
  apply ext_position
  intro row hrow col hcol
  rw [q.cell_flipRows w hrow hcol, hq' row col hcol, p.cell_flipRows w hrow hcol]
  by_cases hin : w.Covers row col
  · have hsame : w.top + w.bottom - row = target ↔ row = w.top + w.bottom - target := by
      obtain ⟨⟨htop, hlow⟩, -⟩ := hin
      omega
    rw [if_pos hin, if_pos hin, hq _ col hcol]
    simp only [hsame]
  · have houtside {n : Nat} (hn : w.top ≤ n ∧ n ≤ w.bottom) :
        ¬ (row = n ∧ w.left ≤ col ∧ col ≤ w.right) := by
      rintro ⟨rfl, hcols⟩
      exact hin ⟨hn, hcols⟩
    rw [if_neg hin, if_neg hin, hq row col hcol, if_neg (houtside htarget),
      if_neg (houtside (by omega))]

theorem flipRows_blankRow? {target : Nat} (colour : UInt8)
    (htarget : w.top ≤ target ∧ target ≤ w.bottom) :
    (p.blankRow? w target colour).map (·.flipRows w) =
      (p.flipRows w).blankRow? w (w.top + w.bottom - target) colour := by
  obtain ⟨q, hq, hwritten⟩ := p.exists_blankRow? h htarget.2 colour
  have hmirror : w.top + w.bottom - target ≤ w.bottom := by omega
  obtain ⟨q', hq', hwritten'⟩ := (p.flipRows w).exists_blankRow? h hmirror colour
  rw [hq, hq']
  exact congrArg some (p.flipRows_of_rowWritten h htarget hwritten hwritten')

theorem flipRows_copyRow? {source target : Nat} (hsource : w.top ≤ source ∧ source ≤ w.bottom)
    (htarget : w.top ≤ target ∧ target ≤ w.bottom) :
    (p.copyRow? w source target).map (·.flipRows w) =
      (p.flipRows w).copyRow? w (w.top + w.bottom - source) (w.top + w.bottom - target) := by
  obtain ⟨q, hq, hwritten⟩ := p.exists_copyRow? h hsource.2 htarget.2
  have hfrom : w.top + w.bottom - source ≤ w.bottom := by omega
  have hto : w.top + w.bottom - target ≤ w.bottom := by omega
  obtain ⟨q', hq', hwritten'⟩ := (p.flipRows w).exists_copyRow? h hfrom hto
  rw [hq, hq']
  refine congrArg some (p.flipRows_of_rowWritten h htarget hwritten fun row col hcol => ?_)
  rw [hwritten' row col hcol]
  dsimp only
  by_cases hin : row = w.top + w.bottom - target ∧ w.left ≤ col ∧ col ≤ w.right
  · have hbottom := h.bottom_lt
    have hcovers : w.Covers (w.top + w.bottom - source) col := ⟨by omega, hin.2⟩
    rw [if_pos hin, if_pos hin, p.cell_flipRows w (by omega) hcol, if_pos hcovers,
      show w.top + w.bottom - (w.top + w.bottom - source) = source by omega]
  · rw [if_neg hin, if_neg hin]

/-- The rows that scroll up in the mirror scroll down. -/
theorem flipRows_scrollRows? (colour : UInt8) {shift n : Nat} (hshift : 0 < shift)
    (hn : n ≤ w.height) :
    (loop? n (fun i p =>
        if w.top + i + shift ≤ w.bottom then p.copyRow? w (w.top + i + shift) (w.top + i)
        else p.blankRow? w (w.top + i) colour) p).map (·.flipRows w) =
      loop? n (fun i p =>
        if w.top + shift ≤ w.bottom - i then p.copyRow? w (w.bottom - i - shift) (w.bottom - i)
        else p.blankRow? w (w.bottom - i) colour) (p.flipRows w) := by
  -- Each step is the mirror of the same step on the other side, so the pages stay mirrors.
  induction n with
  | zero => rfl
  | succ n ih =>
    have hlast : w.top + n ≤ w.bottom := by
      rw [Window.height] at hn
      omega
    have hrow : w.top + w.bottom - (w.top + n) = w.bottom - n := by omega
    have htarget : w.top ≤ w.top + n ∧ w.top + n ≤ w.bottom := ⟨by omega, hlast⟩
    rw [loop?_succ, loop?_succ, ← ih (Nat.le_of_succ_le hn), Option.map_bind, Option.bind_map]
    refine congrArg (Option.bind _) (funext fun q => ?_)
    by_cases hbelow : w.top + n + shift ≤ w.bottom
    · have hsource : w.top + w.bottom - (w.top + n + shift) = w.bottom - n - shift := by omega
      have hfrom : w.top ≤ w.top + n + shift := by omega
      have hmirror := q.flipRows_copyRow? h ⟨hfrom, hbelow⟩ htarget
      simp only [Function.comp_apply]
      rw [if_pos hbelow, if_pos (by omega), hmirror, hrow, hsource]
    · have hmirror := q.flipRows_blankRow? h colour htarget
      simp only [Function.comp_apply]
      rw [if_neg hbelow, if_neg (by omega), hmirror, hrow]

theorem scrollDown?_flipRows (lines : Nat) (colour : UInt8) :
    (p.flipRows w).scrollDown? w lines colour = some ((p.scrollUp w lines colour).flipRows w) := by
  have hmirror := p.flipRows_scrollRows? h colour (h.shift_pos lines) (Nat.le_refl _)
  have hup := p.scrollUp?_eq (fun _ => h) lines colour
  rw [scrollUp?, h.not_isEmpty, if_neg Bool.false_ne_true] at hup
  rw [scrollDown?, h.not_isEmpty, if_neg Bool.false_ne_true]
  exact hmirror.symm.trans (congrArg (Option.map (·.flipRows w)) hup)

theorem scrollDown?_eq_flipRows (lines : Nat) (colour : UInt8) :
    p.scrollDown? w lines colour =
      some (((p.flipRows w).scrollUp w lines colour).flipRows w) := by
  have hmirror := (p.flipRows w).scrollDown?_flipRows h lines colour
  rwa [p.flipRows_flipRows h] at hmirror

theorem scrollDown_eq (lines : Nat) (colour : UInt8) :
    p.scrollDown w lines colour = ((p.flipRows w).scrollUp w lines colour).flipRows w := by
  rw [scrollDown, p.scrollDown?_eq_flipRows h, Option.getD_some]

/-- Scrolling down moves the cells of a window by whole rows and leaves all other cells alone. -/
theorem cell_scrollDown (lines : Nat) (colour : UInt8) {row col : Nat} (hrow : row < rows)
    (hcol : col < columns) :
    (p.scrollDown w lines colour).cell (position row col) =
      if w.Covers row col then
        if w.top + w.shift lines ≤ row then p.cell (position (row - w.shift lines) col)
        else ⟨blankCharacter, colour⟩
      else p.cell (position row col) := by
  have hbottom := h.bottom_lt
  have hshift := h.shift_pos lines
  rw [p.scrollDown_eq h, cell_flipRows _ w hrow hcol]
  by_cases hin : w.Covers row col
  · have ⟨⟨htop, hlow⟩, hcols⟩ := hin
    have hmirror : w.Covers (w.top + w.bottom - row) col := ⟨⟨by omega, by omega⟩, hcols⟩
    rw [if_pos hin, if_pos hin, cell_scrollUp _ h lines colour _ hcol, if_pos hmirror]
    by_cases habove : w.top + w.shift lines ≤ row
    · have hsource : w.Covers (w.top + w.bottom - row + w.shift lines) col :=
        ⟨⟨by omega, by omega⟩, hcols⟩
      have hplace : w.top + w.bottom - (w.top + w.bottom - row + w.shift lines) =
          row - w.shift lines := by omega
      rw [if_pos habove, if_pos (by omega), p.cell_flipRows w (by omega) hcol, if_pos hsource,
        hplace]
    · rw [if_neg habove, if_neg (by omega)]
  · rw [if_neg hin, if_neg hin, cell_scrollUp _ h lines colour _ hcol, if_neg hin,
      p.cell_flipRows w hrow hcol, if_neg hin]

end Mirror

theorem flipRows_of_isEmpty {w : Window} (h : w.isEmpty = true) : p.flipRows w = p := by
  apply ext_position
  intro row hrow col hcol
  rw [p.cell_flipRows w hrow hcol, if_neg (Window.not_covers_of_isEmpty h row col)]

theorem scrollDown?_of_isEmpty {w : Window} (h : w.isEmpty = true) (lines : Nat)
    (colour : UInt8) : p.scrollDown? w lines colour = some p := by
  rw [scrollDown?, if_pos h]

theorem scrollDown?_eq {w : Window} (hw : w.isEmpty = false → w.Fits) (lines : Nat)
    (colour : UInt8) : p.scrollDown? w lines colour = some (p.scrollDown w lines colour) := by
  cases hempty : w.isEmpty with
  | true => rw [scrollDown, p.scrollDown?_of_isEmpty hempty, Option.getD_some]
  | false => rw [scrollDown, p.scrollDown?_eq_flipRows (hw hempty), Option.getD_some]

/-- Between any two corners a window scrolls by whole rows, up and down: `shift` rows if it is
not empty, and all its rows if no number of lines is given or too many. A cell for which there is
no other turns blank, and no cell outside the window changes. No access leaves the page, and both
ways are mirrors of each other. -/
theorem windows_scroll_exactly (lines top left bottom right colour : UInt8) :
    let w := Window.ofCorners top left bottom right
    let shift := if lines = 0 ∨ w.height < lines.toNat then w.height else lines.toNat
    let up := p.scrollUp w lines.toNat colour
    let down := p.scrollDown w lines.toNat colour
    (w.bottom < w.top ∨ w.right < w.left → up = p ∧ down = p) ∧
      (∀ row < rows, ∀ col < columns,
        up.cell (position row col) =
            (if w.Covers row col then
              if row + shift ≤ w.bottom then p.cell (position (row + shift) col)
              else ⟨blankCharacter, colour⟩
            else p.cell (position row col)) ∧
          down.cell (position row col) =
            if w.Covers row col then
              if w.top + shift ≤ row then p.cell (position (row - shift) col)
              else ⟨blankCharacter, colour⟩
            else p.cell (position row col)) ∧
      (p.scrollUp? w lines.toNat colour = some up ∧
        p.scrollDown? w lines.toNat colour = some down) ∧
      (p.flipRows w).flipRows w = p ∧
        down = ((p.flipRows w).scrollUp w lines.toNat colour).flipRows w := by
  intro w shift up down
  have hshift : shift = w.shift lines.toNat := w.shift_eq lines
  have hsafe : p.scrollUp? w lines.toNat colour = some up ∧
      p.scrollDown? w lines.toNat colour = some down :=
    ⟨p.scrollUp?_eq Window.fits_ofCorners _ _, p.scrollDown?_eq Window.fits_ofCorners _ _⟩
  rw [hshift]
  cases hempty : w.isEmpty with
  | true =>
    have hup : up = p := Option.some.inj (hsafe.1.symm.trans (p.scrollUp?_of_isEmpty hempty _ _))
    have hdown : down = p :=
      Option.some.inj (hsafe.2.symm.trans (p.scrollDown?_of_isEmpty hempty _ _))
    refine ⟨fun _ => ⟨hup, hdown⟩, ?_, hsafe, ?_, ?_⟩
    · intro row _ col _
      have hout := Window.not_covers_of_isEmpty hempty row col
      rw [hup, hdown, if_neg hout, if_neg hout]
      exact ⟨rfl, rfl⟩
    · rw [p.flipRows_of_isEmpty hempty, p.flipRows_of_isEmpty hempty]
    · rw [p.flipRows_of_isEmpty hempty, hdown]
      exact (congrArg (·.flipRows w) hup).trans (p.flipRows_of_isEmpty hempty) |>.symm
  | false =>
    have hfits : w.Fits := Window.fits_ofCorners hempty
    refine ⟨?_, ?_, hsafe, p.flipRows_flipRows hfits, p.scrollDown_eq hfits _ _⟩
    · rintro (hrows | hcols)
      · exact absurd hfits.top_le (Nat.not_le.mpr hrows)
      · exact absurd hfits.left_le (Nat.not_le.mpr hcols)
    · intro row hrow col hcol
      exact ⟨p.cell_scrollUp hfits _ _ row hcol, p.cell_scrollDown hfits _ _ hrow hcol⟩

/-- A letter moves two rows up in a window of four, and a window upside down stays as it is. -/
theorem windows_scroll_exactly_letter :
    let p := zero.setCharacter (position 3 2) 0x41 (some defaultColour)
    (p.scrollUp (.ofCorners 1 1 4 5) 2 0x1F).cell (position 1 2) = ⟨0x41, defaultColour⟩ ∧
      (p.scrollDown (.ofCorners 1 1 4 5) 2 0x1F).cell (position 1 2) = ⟨blankCharacter, 0x1F⟩ ∧
      p.scrollUp (.ofCorners 4 1 1 5) 2 0x1F = p := by
  intro p
  obtain ⟨-, hcells, -⟩ := p.windows_scroll_exactly 2 1 1 4 5 0x1F
  obtain ⟨hempty, -⟩ := p.windows_scroll_exactly 2 4 1 1 5 0x1F
  obtain ⟨hup, hdown⟩ := hcells 1 (by decide) 2 (by decide)
  refine ⟨hup.trans ?_, hdown, (hempty (.inl (by decide))).1⟩
  exact zero.cell_setCharacter 0x41 defaultColour (position_lt (by decide) (by decide)) _

end TextPage
end RealMode.Pc
