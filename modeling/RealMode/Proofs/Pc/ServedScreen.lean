import RealMode.Proofs.InterruptFrame
import RealMode.Proofs.Pc.ServiceEffects

/-! # The screen under the services -/
namespace RealMode.Pc

variable {H : Type}

/-- Neither the screen nor what the data area shows of it has changed. -/
structure KeepsScreen (d c : Cpu Board H) : Prop where
  shown : d.memory.shown = c.memory.shown
  screen : d.memory.screen = c.memory.screen

/-- At most the cursor has moved, and the data area does not show that. -/
structure MovesCursor (d c : Cpu Board H) : Prop where
  shown : d.memory.shown = c.memory.shown
  mode : d.memory.screen.mode = c.memory.screen.mode

theorem KeepsScreen.mirrored_iff {d c : Cpu Board H} (h : KeepsScreen d c) :
    d.memory.Mirrored ↔ c.memory.Mirrored := by
  rw [Board.Mirrored, Board.Mirrored, h.shown, h.screen]

/-- After console output the data area shows the screen only if the cursor is back. -/
theorem MovesCursor.mirrored_iff {d c : Cpu Board H} (h : MovesCursor d c)
    (hc : c.memory.Mirrored) :
    d.memory.Mirrored ↔ d.memory.screen.row = c.memory.screen.row ∧
      d.memory.screen.col = c.memory.screen.col := by
  obtain ⟨hmode, hcol, hrow⟩ := hc
  rw [Board.Mirrored, h.shown, h.mode, hmode, hcol, hrow]
  constructor
  · rintro ⟨-, hcol', hrow'⟩
    exact ⟨hrow'.symm, hcol'.symm⟩
  · rintro ⟨hrow', hcol'⟩
    exact ⟨rfl, hcol'.symm, hrow'.symm⟩

theorem Screen.NoFurther.inBytes {s t : Screen} (h : s.NoFurther t) (ht : t.InBytes) :
    s.InBytes := by
  have hrows : rows = 25 := rfl
  have hcolumns : columns = 80 := rfl
  obtain ⟨hrow, hcol⟩ := h
  obtain ⟨htrow, htcol⟩ := ht
  constructor <;> omega

theorem memory_unimplemented (c : Cpu Board H) (vector function : UInt8) :
    (unimplemented c vector function).memory = c.memory := by
  simp only [unimplemented, Cpu.memory_setFlag, Cpu.memory_note]

namespace Dos

theorem memory_serve_printCharacter {c : Cpu Board H} (h : c.regs.get8 .ah = 0x02) :
    (serve c).memory = c.memory.teletype (c.regs.get8 .dl) := by
  let d := (c.note .bios .trace fun _ => callText c.regs).setFlag .carry false
  have hserve : serve c = printCharacter d := by
    simp only [serve, h]
    rfl
  have hd : d.memory = c.memory := by
    rw [Cpu.memory_setFlag, Cpu.memory_note]
  have hdl : d.regs = c.regs := rfl
  rw [hserve, printCharacter, Cpu.memory_setReg8, print, hd, hdl]

theorem movesCursor_serve (c : Cpu Board H) : MovesCursor (serve c) c := by
  have h := (confined_serve c).board
  have hquiet : .publishing ∉ .flagging .carry :: effects c.regs := fun hp =>
    Service.noConfusion (Service.eq_of_publishing (s := .dos) hp)
  exact ⟨h.shown_eq hquiet, h.mode hquiet⟩

end Dos

namespace Video

theorem mirrored_serve {c : Cpu Board H} (h : c.memory.Mirrored) :
    (serve c).memory.Mirrored := by
  unfold serve
  dsimp only
  split
  next f hf =>
    apply Board.mirrored_publishScreen
    exact (confined_function hf _).steady.memory.screen.inBytes (Board.inBytes_of_mirrored h)
  next =>
    rw [memory_unimplemented, Cpu.memory_note]
    exact h

end Video

theorem Service.keepsScreen_serve {s : Service} (hv : s ≠ .video) (hd : s ≠ .dos)
    (c : Cpu Board H) : KeepsScreen (s.serve c) c := by
  have h := (s.confined_serve c).board
  have hpublishing : .publishing ∉ s.effects c.regs := fun hp => hv (Service.eq_of_publishing hp)
  have hprinting : .printing ∉ s.effects c.regs := fun hp => (Service.eq_of_printing hp).elim hv hd
  exact ⟨h.shown_eq hpublishing, h.screen hprinting⟩

def SameCursor (d c : Cpu Board H) : Prop :=
  d.memory.screen.row = c.memory.screen.row ∧ d.memory.screen.col = c.memory.screen.col

/-- Only DOS, when its output ends elsewhere, leaves the data area behind. -/
theorem Service.mirrored_serve_iff (s : Service) {c : Cpu Board H} (h : c.memory.Mirrored) :
    (s.serve c).memory.Mirrored ↔ (s = .dos → SameCursor (s.serve c) c) := by
  by_cases hd : s = .dos
  · subst hd
    have hmoved : MovesCursor (Service.dos.serve c) c := Dos.movesCursor_serve c
    rw [hmoved.mirrored_iff h]
    exact ⟨fun hsame _ => hsame, fun hsame => hsame rfl⟩
  · refine iff_of_true ?_ fun hs => absurd hs hd
    by_cases hv : s = .video
    · subst hv
      exact Video.mirrored_serve h
    · exact (keepsScreen_serve hv hd c).mirrored_iff.mpr h

/-- The services that a host has of the machine are those of the machine. -/
class LawfulServiceHost (H : Type) [ServiceHost H] : Prop where
  serve_builtIn (s : Service) :
    (HostService.serve (ServiceHost.builtIn s : H) : Exec Board H Unit) = modify s.serve

instance : LawfulServiceHost Service where
  serve_builtIn _ := rfl

def StackOutside (c : Cpu Board H) (n : Nat) : Prop :=
  ∀ i < n, physical c.regs.ss (c.regs.sp - UInt16.ofNat (i + 1)) < 0x400 ∨
    0x500 ≤ physical c.regs.ss (c.regs.sp - UInt16.ofNat (i + 1))

instance (c : Cpu Board H) (n : Nat) : Decidable (StackOutside c n) :=
  inferInstanceAs (Decidable (∀ i < n, _ ∨ _))

/-- The interrupt pushes its frame, and that touches none of the bytes that show the screen. -/
theorem keepsScreen_atService {c : Cpu Board H} (h : StackOutside c 6) (vector : UInt8) :
    KeepsScreen (c.atService vector) c := by
  refine ⟨?_, (Board.fixed_of_reaches (c.reaches_atService vector)).screen⟩
  rw [Cpu.memory_atService]
  apply Board.shown_congr
  intro a ha ha'
  apply c.read_framed _ (show a < 0x100000 by omega)
  intro hmem
  obtain ⟨i, hi, rfl⟩ := List.mem_map.mp hmem
  have hout := h i (List.mem_range.mp hi)
  omega

theorem memory_hostReturn (c : Cpu Board H) : c.hostReturn.memory = c.memory := by
  simp only [Cpu.hostReturn, Cpu.iret, Cpu.pop, Cpu.memory_setFlags, Cpu.memory_setSeg,
    Cpu.memory_setIp, Cpu.memory_drop]

variable [ServiceHost H] [LawfulServiceHost H] {c : Cpu Board H} {vector : UInt8} {s : Service}

/-- A service of the machine never fails, and what it has done to the board stays. -/
theorem interrupt_builtIn (hreg : c.services.get? vector = some (ServiceHost.builtIn s)) :
    ∃ d, Cpu.interrupt vector c = .ok () d ∧
      d.memory = (s.serve (c.atService vector)).memory := by
  rw [Cpu.interrupt_of_service hreg, LawfulServiceHost.serve_builtIn]
  exact ⟨_, rfl, memory_hostReturn _⟩

theorem mirrored_after_interrupt_iff
    (hreg : c.services.get? vector = some (ServiceHost.builtIn s)) (hframe : StackOutside c 6)
    (hm : c.memory.Mirrored) :
    ∃ d, Cpu.interrupt vector c = .ok () d ∧
      (d.memory.Mirrored ↔ (s = .dos → SameCursor d c)) := by
  have hk := keepsScreen_atService hframe vector
  obtain ⟨d, hd, hmem⟩ := interrupt_builtIn hreg
  refine ⟨d, hd, ?_⟩
  rw [hmem, Service.mirrored_serve_iff s (hk.mirrored_iff.mpr hm), SameCursor, SameCursor, hmem,
    hk.screen]

/-- A processor that has just been switched on, with one service and its screen in the data
area. -/
def showing (vector : UInt8) (s : Service) (ax dx : UInt16) : Cpu Board Service :=
  ⟨{ Registers.zero with ax := ax, dx := dx, ss := 0x1000, sp := 0x0100 }, .reset,
    (Board.new 640 false).publishScreen, Services.empty.insert vector s, 0, false, .i8086, .silent⟩

theorem get?_showing (vector : UInt8) (s : Service) (ax dx : UInt16) :
    (showing vector s ax dx).services.get? vector = some s := by
  simp [showing, Services.insert]

theorem screen_showing (vector : UInt8) (s : Service) (ax dx : UInt16) :
    (showing vector s ax dx).memory.screen = Screen.start :=
  Board.screen_publishScreen (Board.new 640 false)

theorem mirrored_showing (vector : UInt8) (s : Service) (ax dx : UInt16) :
    (showing vector s ax dx).memory.Mirrored :=
  Board.mirrored_publishScreen ⟨show 0 < 256 by omega, show 0 < 256 by omega⟩

theorem stackOutside_showing (vector : UInt8) (s : Service) (ax dx : UInt16) :
    StackOutside (showing vector s ax dx) 6 := by
  have h : ∀ i < 6, physical 0x1000 (0x0100 - UInt16.ofNat (i + 1)) < 0x400 ∨
      0x500 ≤ physical 0x1000 (0x0100 - UInt16.ofNat (i + 1)) := by decide
  exact h

/-- Moving the cursor by the video service shows in the data area. -/
theorem mirrored_after_moveCursor :
    (showing 0x10 .video 0x0200 0x0305).services.get? 0x10 = some .video ∧
      StackOutside (showing 0x10 .video 0x0200 0x0305) 6 ∧
      (showing 0x10 .video 0x0200 0x0305).memory.Mirrored ∧
      ∃ d, Cpu.interrupt 0x10 (showing 0x10 .video 0x0200 0x0305) = .ok () d ∧
        d.memory.Mirrored := by
  have hreg := get?_showing 0x10 .video 0x0200 0x0305
  have hframe := stackOutside_showing 0x10 .video 0x0200 0x0305
  have hm := mirrored_showing 0x10 .video 0x0200 0x0305
  obtain ⟨d, hd, hiff⟩ := mirrored_after_interrupt_iff hreg hframe hm
  exact ⟨hreg, hframe, hm, d, hd, hiff.mpr fun h => nomatch h⟩

/-- A letter that DOS prints moves the cursor, but the data area goes on showing column 0. -/
theorem cursor_lost_after_print :
    ∃ d, Cpu.interrupt 0x21 (showing 0x21 .dos 0x0200 0x0041) = .ok () d ∧
      d.memory.screen.col = 1 ∧ d.memory.shown.col = 0 := by
  have hk := keepsScreen_atService (stackOutside_showing 0x21 .dos 0x0200 0x0041) 0x21
  obtain ⟨d, hd, hmem⟩ := interrupt_builtIn (get?_showing 0x21 .dos 0x0200 0x0041)
  have hah : ((showing 0x21 .dos 0x0200 0x0041).atService 0x21).regs.get8 .ah = 0x02 :=
    (Cpu.get8_atService _ _ _).trans rfl
  have hdl : ((showing 0x21 .dos 0x0200 0x0041).atService 0x21).regs.get8 .dl = 0x41 :=
    (Cpu.get8_atService _ _ _).trans rfl
  have hserve : Service.dos.serve = (Dos.serve : Cpu Board Service → Cpu Board Service) := rfl
  rw [hserve, Dos.memory_serve_printCharacter hah, hdl] at hmem
  have hcol : (showing 0x21 .dos 0x0200 0x0041).memory.shown.col = 0 :=
    UInt8.toNat_inj.mp (mirrored_showing 0x21 .dos 0x0200 0x0041).2.1
  refine ⟨d, hd, ?_, ?_⟩
  · have hstart : ((showing 0x21 .dos 0x0200 0x0041).atService 0x21).memory.screen =
        Screen.start := hk.screen.trans (screen_showing _ _ _ _)
    rw [hmem, Board.screen_teletype, Display.col_teletype, Board.display, hstart]
    · rfl
    · rw [Board.display, hstart]
      decide
    · decide
  · rw [hmem, Board.shown_teletype, hk.shown, hcol]

end RealMode.Pc
