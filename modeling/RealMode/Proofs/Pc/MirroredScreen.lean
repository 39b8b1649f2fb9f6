import RealMode.Pc.DataArea
import RealMode.Proofs.Pc.LawfulBoard

/-! # The screen in the data area -/
namespace RealMode.Pc

namespace Screen

def InBytes (s : Screen) : Prop := s.row < 256 ∧ s.col < 256

end Screen

namespace Display

theorem col_teletype {d : Display} {character : UInt8} (hcol : d.screen.col + 1 < columns)
    (hv : 0x20 ≤ character.toNat) : (d.teletype character).screen.col = d.screen.col + 1 := by
  have hne (k : UInt8) (hk : k.toNat < 0x20) : character ≠ k := fun he => by
    rw [he] at hv
    omega
  rw [teletype, if_neg (hne _ (by decide)), if_neg (hne _ (by decide)),
    if_neg (hne _ (by decide)), if_neg (hne _ (by decide)), advance]
  exact congrArg (fun e : Display => e.screen.col) (if_pos hcol)

theorem mode_lineFeed (d : Display) : d.lineFeed.screen.mode = d.screen.mode := by
  unfold lineFeed
  split <;> rfl

theorem mode_advance (d : Display) : d.advance.screen.mode = d.screen.mode := by
  unfold advance
  split
  next => rfl
  next => exact mode_lineFeed _

theorem mode_teletype (d : Display) (character : UInt8) :
    (d.teletype character).screen.mode = d.screen.mode := by
  unfold teletype
  split
  next => rfl
  split
  next => exact mode_lineFeed d
  split
  next => rfl
  split
  next => rfl
  next => exact mode_advance _

end Display

/-- The bytes that show the screen. -/
structure Shown where
  mode : UInt8
  col : UInt8
  row : UInt8
  deriving DecidableEq

namespace Board

def shown (b : Board) : Shown :=
  ⟨Bus.getByte b dataSegment modeOffset, Bus.getByte b dataSegment cursorOffset,
    Bus.getByte b dataSegment (cursorOffset + 1)⟩

def Mirrored (b : Board) : Prop :=
  b.shown.mode = b.screen.mode ∧ b.shown.col.toNat = b.screen.col ∧
    b.shown.row.toNat = b.screen.row

theorem shown_eq (b : Board) :
    b.shown = ⟨Bus.read b 0x449, Bus.read b 0x450, Bus.read b 0x451⟩ := rfl

theorem inBytes_of_mirrored {b : Board} (h : b.Mirrored) : b.screen.InBytes := by
  obtain ⟨-, hcol, hrow⟩ := h
  have hc := b.shown.col.toNat_lt
  have hr := b.shown.row.toNat_lt
  constructor <;> omega

theorem shown_congr {b k : Board}
    (h : ∀ a, 0x449 ≤ a → a ≤ 0x451 → Bus.read k a = Bus.read b a) : k.shown = b.shown := by
  rw [shown_eq, shown_eq, h 0x449 (by omega) (by omega), h 0x450 (by omega) (by omega),
    h 0x451 (by omega) (by omega)]

theorem shown_onDisplay (b : Board) (f : Display → Display) :
    (b.onDisplay f).shown = b.shown := by
  apply shown_congr
  intro a ha ha'
  have hm : a < memorySize := show a < 0x100000 by omega
  exact b.read_onDisplay f hm (Or.inl (show a < 0xB8000 by omega))

theorem screen_teletype (b : Board) (character : UInt8) :
    (b.teletype character).screen = (b.display.teletype character).screen := rfl

theorem shown_teletype (b : Board) (character : UInt8) :
    (b.teletype character).shown = b.shown := shown_onDisplay b (·.teletype character)

theorem screen_setByte (b : Board) (segment offset : UInt16) (v : UInt8) :
    (Bus.setByte b segment offset v).screen = b.screen := rfl

theorem screen_publishScreen (b : Board) : b.publishScreen.screen = b.screen := by
  unfold publishScreen
  rw [screen_setByte, screen_setByte, screen_setByte]

theorem shown_publishScreen (b : Board) :
    b.publishScreen.shown =
      ⟨b.screen.mode, UInt8.ofNat b.screen.col, UInt8.ofNat b.screen.row⟩ := by
  have h : b.publishScreen = Bus.write (Bus.write (Bus.write b 0x449 b.screen.mode) 0x450
      (UInt8.ofNat b.screen.col)) 0x451 (UInt8.ofNat b.screen.row) := rfl
  have hmode : 0x449 < memorySize := by decide
  have hcol : 0x450 < memorySize := by decide
  have hrow : 0x451 < memorySize := by decide
  rw [shown_eq, h, Bus.read_write_of_ne _ _ hrow hmode (by decide),
    Bus.read_write_of_ne _ _ hcol hmode (by decide), Bus.read_write_self _ _ hmode,
    Bus.read_write_of_ne _ _ hrow hcol (by decide), Bus.read_write_self _ _ hcol,
    Bus.read_write_self _ _ hrow]

theorem mirrored_publishScreen {b : Board} (h : b.screen.InBytes) : b.publishScreen.Mirrored := by
  obtain ⟨hrow, hcol⟩ := h
  rw [Mirrored, shown_publishScreen, screen_publishScreen]
  exact ⟨rfl, UInt8.toNat_ofNat_of_lt hcol, UInt8.toNat_ofNat_of_lt hrow⟩

end Board
end RealMode.Pc
