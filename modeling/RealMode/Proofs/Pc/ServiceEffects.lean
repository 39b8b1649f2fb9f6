import RealMode.Proofs.Pc.MirroredScreen
import RealMode.Proofs.Pc.SteadyState
import RealMode.Proofs.RegisterAccess
import RealMode.Proofs.VectorEntry

/-! # The effects of services

What a service does beyond its answer are effects, and which of them a call can have shows in the
registers of its caller.
-/
namespace RealMode.Pc

/-- What a service may do beyond its answer. -/
inductive Effect where
  /-- Writes to the text page and moves the cursor. -/
  | printing
  /-- Sets the video mode and shows the screen in the data area. -/
  | publishing
  /-- Reads or sets the clock and shows the ticks in the data area. -/
  | timing
  | loading (s : SegReg)
  | flagging (f : Flag)
  /-- Takes the key at the head of the queue. -/
  | taking
  /-- Points a vector somewhere else. -/
  | pointing (vector : UInt8)
  /-- Ends the program, with an exit code. -/
  | ending
  deriving DecidableEq

instance (a : Nat) : Decidable (Board.OffPage a) := inferInstanceAs (Decidable (_ ∨ _))

namespace Effect

def Covers : Effect → Nat → Prop
  | printing, a => ¬ Board.OffPage a
  | publishing, a => 0x449 ≤ a ∧ a ≤ 0x451
  | timing, a => 0x46C ≤ a ∧ a ≤ 0x470
  | pointing vector, a => InEntry vector a
  | loading _, _ | flagging _, _ | taking, _ | ending, _ => False

instance (e : Effect) (a : Nat) : Decidable (e.Covers a) :=
  match e with
  | printing => inferInstanceAs (Decidable (¬ _))
  | publishing | timing => inferInstanceAs (Decidable (_ ∧ _))
  | pointing _ => inferInstanceAs (Decidable (InEntry _ _))
  | loading _ | flagging _ | taking | ending => inferInstanceAs (Decidable False)

end Effect

/-- A board that effects `E` can make of another one. -/
structure Board.Confined (E : List Effect) (k b : Board) : Prop where
  steady : k.Steady b
  memory : ∀ a < memorySize, (∀ e ∈ E, ¬ e.Covers a) → Bus.read k a = Bus.read b a
  screen : .printing ∉ E → k.screen = b.screen
  mode : .publishing ∉ E → k.screen.mode = b.screen.mode
  keyboard : .taking ∉ E → k.keyboard = b.keyboard
  exitCode : .ending ∉ E → k.exitCode = b.exitCode

namespace Board.Confined

variable {E : List Effect}

theorem mono {F : List Effect} {b k : Board} (h : k.Confined E b) (hE : E ⊆ F) :
    k.Confined F b :=
  ⟨h.steady, fun a ha hout => h.memory a ha fun e he => hout e (hE he),
    fun hno => h.screen (mt (hE ·) hno), fun hno => h.mode (mt (hE ·) hno),
    fun hno => h.keyboard (mt (hE ·) hno), fun hno => h.exitCode (mt (hE ·) hno)⟩

theorem trans {b k l : Board} (h : l.Confined E k) (h' : k.Confined E b) : l.Confined E b := by
  constructor
  · exact h.steady.trans h'.steady
  · intro a ha hout
    rw [h.memory a ha hout, h'.memory a ha hout]
  · intro hE
    rw [h.screen hE, h'.screen hE]
  · intro hE
    rw [h.mode hE, h'.mode hE]
  · intro hE
    rw [h.keyboard hE, h'.keyboard hE]
  · intro hE
    rw [h.exitCode hE, h'.exitCode hE]

theorem of_reaches {b k : Board} (h : Bus.Reaches b k)
    (hmemory : ∀ a < memorySize, (∀ e ∈ E, ¬ e.Covers a) → Bus.read k a = Bus.read b a) :
    k.Confined E b := by
  have hfixed := fixed_of_reaches h
  exact ⟨.of_reaches h, hmemory, fun _ => hfixed.screen, fun _ => congrArg Screen.mode hfixed.screen,
    fun _ => hfixed.keyboard, fun _ => hfixed.exitCode⟩

theorem refl (b : Board) : b.Confined E b := of_reaches .refl fun _ _ _ => rfl

theorem withKeyboard (hE : .taking ∈ E) (b : Board) (keyboard : Keyboard) :
    ({ b with keyboard := keyboard } : Board).Confined E b :=
  ⟨⟨rfl, rfl, .refl _, fun _ => rfl⟩, fun _ _ _ => rfl, fun _ => rfl, fun _ => rfl,
    fun hno => absurd hE hno, fun _ => rfl⟩

theorem withClock (b : Board) (clock : Clock) :
    ({ b with clock := clock } : Board).Confined E b :=
  ⟨⟨rfl, rfl, .refl _, fun _ => rfl⟩, fun _ _ _ => rfl, fun _ => rfl, fun _ => rfl, fun _ => rfl,
    fun _ => rfl⟩

section DataArea

variable {b k : Board} (h : k.Confined E b) {e : Effect} (he : e ∈ E)
include h he

theorem setByte {segment offset : UInt16} (hc : e.Covers (physical segment offset)) (v : UInt8) :
    (Bus.setByte k segment offset v).Confined E b := by
  refine trans (of_reaches (Bus.Reaches.refl.setByte _ _ _) ?_) h
  intro a ha hout
  apply Bus.read_write_of_ne k v (physical_lt _ _) ha
  rintro rfl
  exact hout e he hc

theorem setWord {segment offset : UInt16} (hlow : e.Covers (physical segment offset))
    (hhigh : e.Covers (physical segment (offset + 1))) (v : UInt16) :
    (Bus.setWord k segment offset v).Confined E b :=
  (h.setByte he hlow _).setByte he hhigh _

end DataArea

theorem publishScreen (hE : .publishing ∈ E) (b : Board) : b.publishScreen.Confined E b :=
  (((refl b).setByte hE (by decide) _).setByte hE (by decide) _).setByte hE (by decide) _

theorem readClock (hE : .timing ∈ E) (b : Board) (steps : Nat) :
    (b.readClock steps).2.Confined E b := by
  rw [Board.readClock]
  rcases b.clock.read steps with ⟨ticks, clock⟩
  exact ((withClock b clock).setWord hE (by decide) (by decide) _).setWord hE (by decide)
    (by decide) _

theorem writeVector (b : Board) {vector : UInt8} (hE : .pointing vector ∈ E) (p : FarPointer) :
    (RealMode.writeVector b vector p).Confined E b := by
  apply of_reaches (Bus.Reaches.refl.writeVector vector p)
  intro a ha hout
  exact read_writeVector_of_not p ha (hout _ hE)

section Page

variable (hE : .printing ∈ E)
include hE

theorem onDisplay (b : Board) {f : Display → Display}
    (hscreen : (f b.display).screen.NoFurther b.screen) (hfailed : (f b.display).failed = b.failed)
    (hmode : .publishing ∉ E → (f b.display).screen.mode = b.screen.mode) :
    (b.onDisplay f).Confined E b := by
  constructor
  · exact ⟨rfl, rfl, hscreen, fun _ => hfailed⟩
  · intro a ha hout
    exact b.read_onDisplay f ha (Decidable.not_not.mp (hout _ hE))
  · intro hno
    exact absurd hE hno
  · exact hmode
  · intro _
    rfl
  · intro _
    rfl

theorem teletype (b : Board) (character : UInt8) : (b.teletype character).Confined E b := by
  have hdisplay : (b.onDisplay (·.teletype character)).Confined E b :=
    onDisplay hE b (Screen.NoFurther.teletype (d := b.display) (.refl _) character)
      (Display.failed_teletype _ _) fun _ => Display.mode_teletype _ _
  obtain ⟨⟨hmemory, hecho, hscreen, hfailed⟩, hread, hsame, hmode, hkeyboard, hexit⟩ := hdisplay
  exact ⟨⟨hmemory, hecho, hscreen, hfailed⟩, hread, hsame, hmode, hkeyboard, hexit⟩

theorem printFrom (b : Board) (segment offset : UInt16) (count : Nat) :
    (Dos.printFrom b segment offset count).Confined E b := by
  induction count generalizing b offset with
  | zero => exact refl b
  | succ n ih =>
    by_cases hend : Bus.getByte b segment offset = Dos.terminator
    · rw [Dos.printFrom, if_pos hend]
      exact refl b
    · rw [Dos.printFrom, if_neg hend]
      exact (ih _ (offset + 1)).trans (teletype hE b _)

end Page

/-- The bytes that show the screen are concerned by publishing it, and by nothing else. -/
theorem shown_eq {b k : Board} (h : k.Confined E b) (hE : .publishing ∉ E) :
    k.shown = b.shown := by
  apply shown_congr
  intro a ha ha'
  apply h.memory a (show a < 0x100000 by omega)
  intro e he hc
  cases e with
  | printing => exact hc (.inl (show a < 0xB8000 by omega))
  | publishing => exact hE he
  | timing =>
    have hlow := hc.1
    omega
  | pointing vector =>
    have hlt := InEntry.lt hc
    omega
  | loading s => exact hc
  | flagging f => exact hc
  | taking => exact hc
  | ending => exact hc

end Board.Confined

def keptRegisters : List Reg16 := [.sp, .bp, .si, .di]

variable {H : Type}

/-- A state that a service with effects `E` can make of another one. -/
structure Confined (E : List Effect) (d c : Cpu Board H) : Prop where
  services : d.services = c.services
  model : d.model = c.model
  steps : d.steps = c.steps
  flags : c.flags.WellFormed → d.flags.WellFormed
  flag : ∀ f, .flagging f ∉ E → d.flags.get f = c.flags.get f
  board : d.memory.Confined E c.memory
  registers : ∀ r ∈ keptRegisters, d.regs.get r = c.regs.get r
  segments : ∀ s, .loading s ∉ E → d.regs.getSeg s = c.regs.getSeg s

namespace Confined

variable {E : List Effect} {c d e : Cpu Board H}

theorem steady (h : Confined E d c) : Steady d c :=
  ⟨h.services, h.model, h.board.steady, h.flags⟩

theorem mono {F : List Effect} (h : Confined E d c) (hE : E ⊆ F) : Confined F d c :=
  ⟨h.services, h.model, h.steps, h.flags, fun f hf => h.flag f (mt (hE ·) hf), h.board.mono hE,
    h.registers, fun s hs => h.segments s (mt (hE ·) hs)⟩

theorem trans (h : Confined E e d) (k : Confined E d c) : Confined E e c := by
  constructor
  · exact h.services.trans k.services
  · exact h.model.trans k.model
  · exact h.steps.trans k.steps
  · exact h.flags ∘ k.flags
  · intro f hf
    rw [h.flag f hf, k.flag f hf]
  · exact h.board.trans k.board
  · intro r hr
    rw [h.registers r hr, k.registers r hr]
  · intro s hs
    rw [h.segments s hs, k.segments s hs]

theorem withMemory (c : Cpu Board H) {k : Board} (h : k.Confined E c.memory) :
    Confined E { c with memory := k } c :=
  ⟨rfl, rfl, rfl, id, fun _ _ => rfl, h, fun _ _ => rfl, fun _ _ => rfl⟩

theorem refl (c : Cpu Board H) : Confined E c c := withMemory c (.refl _)

section Answers

variable (h : Confined E d c)
include h

theorem withRegs {r : Registers} (hregs : ∀ a ∈ keptRegisters, r.get a = d.regs.get a)
    (hsegs : ∀ s, .loading s ∉ E → r.getSeg s = d.regs.getSeg s) :
    Confined E { d with regs := r } c := by
  refine trans (d := d) ⟨rfl, rfl, rfl, id, fun _ _ => rfl, .refl _, ?_, ?_⟩ h
  · exact hregs
  · exact hsegs

theorem setReg {r : Reg16} (hr : r ∉ keptRegisters) (v : UInt16) :
    Confined E (d.setReg r v) c := by
  cases d
  apply h.withRegs
  · intro a ha
    have hne : r ≠ a := by
      rintro rfl
      exact hr ha
    rw [Registers.get_set, if_neg hne]
  · intro s _
    exact Registers.getSeg_set _ _ _ _

theorem setReg8 (r : Reg8) (v : UInt8) : Confined E (d.setReg8 r v) c := by
  have hwhole : r.whole ∉ keptRegisters := by cases r <;> decide
  exact h.setReg hwhole _

theorem setSeg {s : SegReg} (hE : .loading s ∈ E) (v : UInt16) :
    Confined E (d.setSeg s v) c := by
  cases d
  apply h.withRegs
  · intro a _
    exact Registers.get_setSeg _ _ _ _
  · intro t ht
    have hne : s ≠ t := by
      rintro rfl
      exact ht hE
    exact (Registers.getSeg_setSeg _ _ _ _).trans (if_neg hne)

theorem setFlag {f : Flag} (hE : .flagging f ∈ E) (v : Bool) : Confined E (d.setFlag f v) c := by
  cases d
  refine ⟨h.services, h.model, h.steps, fun hc => (h.flags hc).set f v, ?_, h.board, h.registers,
    h.segments⟩
  intro g hg
  have hne : f ≠ g := by
    rintro rfl
    exact hg hE
  exact ((Flags.get_set _ _ _ _).trans (if_neg hne)).trans (h.flag g hg)

theorem note (a : Category) (l : Level) (t : Unit → String) : Confined E (d.note a l t) c := by
  cases d
  exact ⟨h.services, h.model, h.steps, h.flags, h.flag, h.board, h.registers, h.segments⟩

theorem onBoard {k : Board} (hk : k.Confined E d.memory) :
    Confined E { d with memory := k } c := (withMemory d hk).trans h

end Answers

theorem unimplemented (hE : .flagging .carry ∈ E) (c : Cpu Board H) (vector function : UInt8) :
    Confined E (Pc.unimplemented c vector function) c :=
  ((refl c).note .stubs .warn _).setFlag hE true

end Confined

namespace Video

def effects : List Effect := [.printing, .publishing, .flagging .carry]

theorem confined_onDisplay (c : Cpu Board H) {f : Display → Display}
    (h : (f c.memory.display).screen.NoFurther c.memory.screen)
    (hfailed : (f c.memory.display).failed = c.memory.failed) :
    Confined effects (onDisplay c f) c :=
  .withMemory c (.onDisplay (by decide) _ h hfailed fun hE => absurd (by decide) hE)

theorem confined_onPage (c : Cpu Board H) {f : TextPage → Option TextPage} {page : TextPage}
    (h : f c.memory.page = some page) : Confined effects (onDisplay c (·.onPage f)) c := by
  have hdisplay : c.memory.display.onPage f = ⟨c.memory.screen, page, c.memory.failed⟩ :=
    Display.onPage_of_some h
  apply confined_onDisplay
  all_goals rw [hdisplay]
  exact .refl _

theorem confined_withScreen (c : Cpu Board H) {s : Screen} (h : s.NoFurther c.memory.screen) :
    Confined effects (onBoard c fun b => { b with screen := s }) c := by
  apply Confined.withMemory
  constructor
  · exact ⟨rfl, rfl, h, fun _ => rfl⟩
  · intro a _ _
    rfl
  · intro hE
    exact absurd (by decide) hE
  · intro hE
    exact absurd (by decide) hE
  · intro _
    rfl
  · intro _
    rfl

theorem confined_setMode (c : Cpu Board H) : Confined effects (setMode c) c := by
  by_cases hkeep : c.regs.get8 .al &&& 0x80 = 0
  · rw [setMode, if_pos hkeep]
    exact confined_onDisplay c (by rw [Display.setMode, Display.clear_eq]; exact .home _ _)
      (by rw [Display.setMode, Display.clear_eq]; rfl)
  · rw [setMode, if_neg hkeep]
    exact confined_withScreen c ⟨Nat.le_max_left _ _, Nat.le_max_left _ _⟩

theorem confined_selectPage (c : Cpu Board H) : Confined effects (selectPage c) c := by
  by_cases hpage : c.regs.get8 .al = 0
  · rw [selectPage, if_pos hpage]
    exact .refl c
  · rw [selectPage, if_neg hpage]
    exact (Confined.refl c).note .stubs .debug _

theorem confined_readCell (c : Cpu Board H) : Confined effects (readCell c) c := by
  rw [readCell]
  cases hcell : c.memory.page.cell? c.memory.screen.cursor with
  | some cell => exact ((Confined.refl c).setReg8 .al _).setReg8 .ah _
  | none =>
    have hoff : ¬ c.memory.screen.OnPage := by
      rintro ⟨hrow, hcol⟩
      have hcursor := position_lt hrow hcol
      rw [Screen.cursor, TextPage.cell?_eq _ hcursor] at hcell
      cases hcell
    have hfailed : ({ c.memory with failed := true } : Board).Steady c.memory :=
      ⟨rfl, rfl, .refl _, fun hpage => absurd hpage hoff⟩
    exact .withMemory c ⟨hfailed, fun _ _ _ => rfl, fun _ => rfl, fun _ => rfl, fun _ => rfl,
      fun _ => rfl⟩

theorem confined_writeString (c : Cpu Board H) : Confined effects (writeString c) c := by
  unfold writeString
  dsimp only
  apply confined_onDisplay
  · split
    next => exact .moveTo _ _ _ _
    next => exact .writeRun (.moveTo _ _ _ _) _
  · split
    next => exact Display.failed_writeRun _ _
    next => exact Display.failed_writeRun _ _

theorem confined_function {ah : UInt8} {f : Cpu Board H → Cpu Board H} (h : function? ah = some f)
    (c : Cpu Board H) : Confined effects (f c) c := by
  have same := Confined.refl (E := effects) c
  rw [function?] at h
  split at h
  case h_14 => cases h
  all_goals obtain rfl := Option.some.inj h
  case h_1 => exact confined_setMode c
  case h_2 => exact same
  case h_3 => exact confined_withScreen c (.moveTo _ _ _ _)
  case h_4 => exact ((same.setReg (by decide) _).setReg8 .dh _).setReg8 .dl _
  case h_5 => exact confined_selectPage c
  case h_6 => exact confined_onPage c (TextPage.scrollUp?_eq _ Window.fits_ofCorners _ _)
  case h_7 => exact confined_onPage c (TextPage.scrollDown?_eq _ Window.fits_ofCorners _ _)
  case h_8 => exact confined_readCell c
  case h_9 | h_10 => exact confined_onPage c (TextPage.setCharacters?_eq _ _ _ _ _)
  case h_11 => exact .withMemory c (.teletype (by decide) _ _)
  case h_12 => exact ((same.setReg8 .al _).setReg8 .ah _).setReg8 .bh _
  case h_13 => exact confined_writeString c

theorem confined_serve (c : Cpu Board H) : Confined effects (serve c) c := by
  have hnote := (Confined.refl (E := effects) c).note .bios .trace fun _ => callText c.regs
  cases hf : function? (H := H) (c.regs.get8 .ah) with
  | some f =>
    simp only [serve, hf]
    have hfunction := (confined_function hf _).trans hnote
    exact hfunction.onBoard (.publishScreen (by decide) _)
  | none =>
    simp only [serve, hf]
    exact (Confined.unimplemented (by decide) _ _ _).trans hnote

end Video

namespace Bios

variable {E : List Effect}

theorem confined_takeKey (hE : .taking ∈ E) (c : Cpu Board H) : Confined E (takeKey c).2 c :=
  .withMemory c (.withKeyboard hE _ _)

theorem confined_readKey (hE : .taking ∈ E) (c : Cpu Board H) : Confined E (readKey c) c := by
  have h := confined_takeKey hE c
  rw [readKey]
  rcases ht : takeKey c with ⟨key, d⟩
  rw [ht] at h
  cases key with
  | some key => exact h.setReg (by decide) key
  | none => exact (h.note .bios .debug _).setReg (by decide) 0

theorem confined_peekKey (hE : .flagging .zero ∈ E) (c : Cpu Board H) :
    Confined E (peekKey c) c := by
  rw [peekKey]
  cases c.memory.keyboard.next? with
  | some key => exact ((Confined.refl c).setReg (by decide) key).setFlag hE false
  | none => exact (Confined.refl c).setFlag hE true

def keyboardEffects (r : Registers) : List Effect :=
  match (r.get8 .ah).toNat with
  | 0x00 | 0x10 => [.taking]
  | 0x01 | 0x11 => [.flagging .zero]
  | 0x02 | 0x12 => []
  | _ => [.flagging .carry]

theorem keyboardEffects_subset (r : Registers) :
    keyboardEffects r ⊆ [.taking, .flagging .zero, .flagging .carry] := by
  rw [keyboardEffects]
  split <;> decide

theorem confined_keyboard (c : Cpu Board H) :
    Confined (keyboardEffects c.regs) (keyboard c) c := by
  cases hf : keyboardFunction? (H := H) (c.regs.get8 .ah) with
  | some f =>
    simp only [keyboard, hf]
    rw [keyboardFunction?] at hf
    split at hf <;> cases hf
    all_goals rename_i hah; simp only [keyboardEffects, hah]
    case h_1 | h_2 => exact confined_readKey (by decide) c
    case h_3 | h_4 => exact confined_peekKey (by decide) c
    case h_5 | h_6 => exact (Confined.refl c).setReg8 .al 0
  | none =>
    have hcarry : .flagging .carry ∈ keyboardEffects c.regs := by
      rw [keyboardFunction?] at hf
      split at hf
      case h_7 h0 h10 h1 h11 h2 h12 =>
        rw [keyboardEffects]
        split
        case h_7 => decide
        all_goals contradiction
      all_goals cases hf
    simp only [keyboard, hf]
    exact .unimplemented hcarry c _ _

section Clock

variable (hE : .timing ∈ E)
include hE

theorem confined_currentTicks (c : Cpu Board H) : Confined E (currentTicks c).2 c :=
  .withMemory c (.readClock hE _ _)

theorem confined_readTicks (c : Cpu Board H) : Confined E (readTicks c) c := by
  have h := confined_currentTicks hE c
  rw [readTicks]
  rcases ht : currentTicks c with ⟨ticks, d⟩
  rw [ht] at h
  dsimp only
  rcases d.memory.clock.takeMidnight with ⟨midnight, clock⟩
  have hmidnight : (Bus.setByte ({ d.memory with clock := clock } : Board) dataSegment
      midnightOffset 0).Confined E d.memory :=
    (Board.Confined.withClock d.memory clock).setByte hE (by decide) 0
  exact (((h.onBoard hmidnight).setReg (by decide) _).setReg (by decide) _).setReg8 .al _

theorem confined_setClock (c : Cpu Board H) (clock : Clock) :
    Confined E (currentTicks { c with memory := { c.memory with clock := clock } }).2 c :=
  (confined_currentTicks hE _).trans (.withMemory c (.withClock _ _))

omit hE in
/-- As an equation between functions, which keeps the kernel from multiplying the count out. -/
theorem setTicks_eq : (setTicks : Cpu Board H → Cpu Board H) = fun c =>
    let ticks := c.regs.cx.toNat * 0x10000 + c.regs.dx.toNat
    (currentTicks { c with memory := { c.memory with clock := Clock.set ticks c.counter } }).2 :=
  rfl

theorem confined_readTime (hcarry : .flagging .carry ∈ E) (c : Cpu Board H) :
    Confined E (readTime c) c := by
  have h := confined_currentTicks hE c
  rw [readTime]
  rcases ht : currentTicks c with ⟨ticks, d⟩
  rw [ht] at h
  exact ((((h.setReg8 .ch _).setReg8 .cl _).setReg8 .dh _).setReg8 .dl 0).setFlag hcarry false

theorem confined_time (hcarry : .flagging .carry ∈ E) (c : Cpu Board H) :
    Confined E (time c) c := by
  cases hf : timeFunction? (H := H) (c.regs.get8 .ah) with
  | some f =>
    simp only [time, hf]
    rw [timeFunction?] at hf
    split at hf <;> cases hf
    case h_1 => exact confined_readTicks hE c
    case h_2 =>
      rw [setTicks_eq]
      exact confined_setClock hE c _
    case h_3 => exact confined_readTime hE hcarry c
    case h_4 =>
      exact (((Confined.refl c).setReg (by decide) _).setReg (by decide) _).setFlag hcarry false
  | none =>
    simp only [time, hf]
    exact .unimplemented hcarry c _ _

end Clock
end Bios

namespace Dos

variable {E : List Effect}

theorem confined_terminate (hE : .ending ∈ E) (code : UInt8) (c : Cpu Board H) :
    Confined E (terminate code c) c := by
  have hboard : ({ c.memory with exitCode := some code } : Board).Confined E c.memory :=
    ⟨⟨rfl, rfl, .refl _, fun _ => rfl⟩, fun _ _ _ => rfl, fun _ => rfl, fun _ => rfl,
      fun _ => rfl, fun hno => absurd hE hno⟩
  exact ⟨rfl, rfl, rfl, id, fun _ _ => rfl, hboard, fun _ _ => rfl, fun _ _ => rfl⟩

section Input

variable (hE : .taking ∈ E)
include hE

theorem confined_readCharacter (c : Cpu Board H) : Confined E (readCharacter c).2 c := by
  have h := Bios.confined_takeKey hE c
  rw [readCharacter]
  rcases ht : Bios.takeKey c with ⟨key, d⟩
  rw [ht] at h
  cases key with
  | some key => exact h
  | none => exact h.note .bios .debug _

theorem confined_readSilently (c : Cpu Board H) : Confined E (readSilently c) c :=
  (confined_readCharacter hE c).setReg8 .al _

end Input

section Output

variable (hE : .printing ∈ E)
include hE

theorem confined_print (c : Cpu Board H) (character : UInt8) : Confined E (print c character) c :=
  .withMemory c (.teletype hE _ _)

theorem confined_readWithEcho (htaking : .taking ∈ E) (c : Cpu Board H) :
    Confined E (readWithEcho c) c := by
  have h := confined_readCharacter htaking c
  rw [readWithEcho]
  rcases ht : readCharacter c with ⟨character, d⟩
  rw [ht] at h
  by_cases hend : character = endOfFile
  · simp only [if_pos hend]
    exact h.setReg8 .al _
  · simp only [if_neg hend]
    exact ((confined_print hE d character).trans h).setReg8 .al _

theorem confined_printCharacter (c : Cpu Board H) : Confined E (printCharacter c) c :=
  (confined_print hE c _).setReg8 .al _

theorem confined_printString (c : Cpu Board H) : Confined E (printString c) c :=
  (Confined.withMemory c (.printFrom hE c.memory c.regs.ds c.regs.dx 0x10000)).setReg8 .al _

end Output

def consoleEffects (r : Registers) : List Effect :=
  if r.get8 .dl = 0xFF then [.taking, .flagging .zero] else [.printing]

theorem consoleEffects_subset (r : Registers) :
    consoleEffects r ⊆ [.taking, .flagging .zero, .printing] := by
  rw [consoleEffects]
  split <;> decide

theorem confined_directConsole (c : Cpu Board H) :
    Confined (consoleEffects c.regs) (directConsole c) c := by
  by_cases hread : c.regs.get8 .dl = 0xFF
  · have h := Bios.confined_takeKey (E := [.taking, .flagging .zero]) (by decide) c
    rw [directConsole, consoleEffects, if_pos hread, if_pos hread]
    rcases ht : Bios.takeKey c with ⟨key, d⟩
    rw [ht] at h
    cases key with
    | some key => exact (h.setReg8 .al _).setFlag (by decide) false
    | none => exact (h.setReg8 .al 0).setFlag (by decide) true
  · rw [directConsole, consoleEffects, if_neg hread, if_neg hread]
    exact confined_printCharacter (by decide) c

theorem confined_setVector (c : Cpu Board H) (hE : .pointing (c.regs.get8 .al) ∈ E) :
    Confined E (setVector c) c := by
  have hset : Confined E
      { c with memory := writeVector c.memory (c.regs.get8 .al) ⟨c.regs.ds, c.regs.dx⟩ } c :=
    .withMemory c (.writeVector _ hE _)
  by_cases hserved : c.services.isRegistered (c.regs.get8 .al)
  · rw [setVector, if_pos hserved]
    exact hset.note .bios .debug _
  · rw [setVector, if_neg hserved]
    exact hset

theorem confined_readTime (hE : .timing ∈ E) (c : Cpu Board H) : Confined E (readTime c) c := by
  have h := Bios.confined_currentTicks hE c
  rw [readTime]
  rcases ht : Bios.currentTicks c with ⟨ticks, d⟩
  rw [ht] at h
  exact (((h.setReg8 .ch _).setReg8 .cl _).setReg8 .dh _).setReg8 .dl _

def effects (r : Registers) : List Effect :=
  match (r.get8 .ah).toNat with
  | 0x00 | 0x4C => [.ending]
  | 0x01 => [.taking, .printing]
  | 0x02 | 0x09 => [.printing]
  | 0x06 => consoleEffects r
  | 0x07 | 0x08 => [.taking]
  | 0x25 => [.pointing (r.get8 .al)]
  | 0x2C => [.timing]
  | 0x35 => [.loading .es]
  | _ => []

theorem confined_function {f : Cpu Board H → Cpu Board H} {c : Cpu Board H}
    (h : function? (c.regs.get8 .ah) = some f) : Confined (effects c.regs) (f c) c := by
  have same {E : List Effect} := Confined.refl (E := E) c
  rw [function?] at h
  split at h <;> cases h
  all_goals rename_i hah; simp only [effects, hah]
  case h_1 | h_15 => exact confined_terminate (by decide) _ c
  case h_2 => exact confined_readWithEcho (by decide) (by decide) c
  case h_3 => exact confined_printCharacter (by decide) c
  case h_4 => exact confined_directConsole c
  case h_5 | h_6 => exact confined_readSilently (by decide) c
  case h_7 => exact confined_printString (by decide) c
  case h_8 | h_9 => exact same.setReg8 .al _
  case h_10 => exact confined_setVector c (List.mem_singleton_self _)
  case h_11 => exact (((same.setReg (by decide) _).setReg8 .dh _).setReg8 .dl _).setReg8 .al _
  case h_12 => exact confined_readTime (by decide) c
  case h_13 => exact ((same.setReg (by decide) _).setReg (by decide) _).setReg (by decide) _
  case h_14 => exact (same.setSeg (by decide) _).setReg (by decide) _
  case h_16 => exact same.setReg (by decide) _
  case h_17 | h_18 => exact same.setReg (by decide) _

/-- CF is cleared in front of the function, and set where there is none. -/
theorem confined_serve (c : Cpu Board H) :
    Confined (.flagging .carry :: effects c.regs) (serve c) c := by
  let d := (c.note .bios .trace fun _ => callText c.regs).setFlag .carry false
  have hregs : d.regs = c.regs := rfl
  have hcarry : Effect.flagging .carry ∈ .flagging .carry :: effects c.regs := List.mem_cons_self
  have hd : Confined (.flagging .carry :: effects c.regs) d c :=
    ((Confined.refl c).note .bios .trace _).setFlag hcarry false
  cases hf : function? (H := H) (c.regs.get8 .ah) with
  | some f =>
    simp only [serve, hf]
    have hfunction : Confined (effects c.regs) (f d) d :=
      hregs ▸ confined_function (c := d) (hregs ▸ hf)
    exact (hfunction.mono (List.subset_cons_self _ _)).trans hd
  | none =>
    simp only [serve, hf]
    exact ((Confined.unimplemented hcarry d _ _).setReg (by decide) _).trans hd

end Dos

namespace Service

def effects (s : Service) (r : Registers) : List Effect :=
  match s with
  | video => Video.effects
  | dos => .flagging .carry :: Dos.effects r
  | keyboard => Bios.keyboardEffects r
  | time => [.timing, .flagging .carry]
  | terminate => [.ending]
  | equipment | memorySize => []

/-- A service has no other effects than these. -/
theorem confined_serve (s : Service) (c : Cpu Board H) :
    Confined (s.effects c.regs) (s.serve c) c := by
  cases s with
  | video => exact Video.confined_serve c
  | dos => exact Dos.confined_serve c
  | equipment => exact (Confined.refl c).setReg (by decide) _
  | memorySize => exact (Confined.refl c).setReg (by decide) _
  | keyboard => exact Bios.confined_keyboard c
  | time =>
    exact Bios.confined_time List.mem_cons_self (List.mem_cons_of_mem _ List.mem_cons_self) c
  | terminate => exact Dos.confined_terminate (List.mem_singleton_self _) 0 c

theorem effects_congr (s : Service) {q r : Registers} (h : ∀ a, q.get8 a = r.get8 a) :
    s.effects q = s.effects r := by
  cases s with
  | dos =>
    rw [effects, effects, Dos.effects, Dos.effects, Dos.consoleEffects, Dos.consoleEffects, h, h, h]
  | keyboard => rw [effects, effects, Bios.keyboardEffects, Bios.keyboardEffects, h]
  | _ => rfl

section Causes

variable {s : Service} {r : Registers}

theorem eq_of_loading {g : SegReg} (h : .loading g ∈ s.effects r) :
    s = .dos ∧ g = .es ∧ r.get8 .ah = 0x35 := by
  cases s with
  | dos =>
    have hmem : .loading g ∈ Dos.effects r := List.mem_of_ne_of_mem (by simp) h
    rw [Dos.effects] at hmem
    split at hmem
    case h_6 => simpa using Dos.consoleEffects_subset r hmem
    case h_11 hah =>
      exact ⟨rfl, Effect.loading.inj (List.mem_singleton.mp hmem), UInt8.toNat_inj.mp hah⟩
    all_goals simp at hmem
  | keyboard => simpa using Bios.keyboardEffects_subset r h
  | _ => simp [effects, Video.effects] at h

theorem loading_not_mem_effects {g : SegReg} (hg : g ≠ .es) : .loading g ∉ s.effects r :=
  fun h => hg (eq_of_loading h).2.1

theorem eq_of_pointing {v : UInt8} (h : .pointing v ∈ s.effects r) :
    s = .dos ∧ v = r.get8 .al ∧ r.get8 .ah = 0x25 := by
  cases s with
  | dos =>
    have hmem : .pointing v ∈ Dos.effects r := List.mem_of_ne_of_mem (by simp) h
    rw [Dos.effects] at hmem
    split at hmem
    case h_6 => simpa using Dos.consoleEffects_subset r hmem
    case h_9 hah =>
      exact ⟨rfl, Effect.pointing.inj (List.mem_singleton.mp hmem), UInt8.toNat_inj.mp hah⟩
    all_goals simp at hmem
  | keyboard => simpa using Bios.keyboardEffects_subset r h
  | _ => simp [effects, Video.effects] at h

theorem eq_of_ending (h : .ending ∈ s.effects r) :
    s = .terminate ∨ s = .dos ∧ (r.get8 .ah = 0x00 ∨ r.get8 .ah = 0x4C) := by
  cases s with
  | terminate => exact .inl rfl
  | dos =>
    have hmem : .ending ∈ Dos.effects r := List.mem_of_ne_of_mem (by decide) h
    rw [Dos.effects] at hmem
    split at hmem
    case h_1 hah => exact .inr ⟨rfl, .inl (UInt8.toNat_inj.mp hah)⟩
    case h_2 hah => exact .inr ⟨rfl, .inr (UInt8.toNat_inj.mp hah)⟩
    case h_6 => simpa using Dos.consoleEffects_subset r hmem
    all_goals simp at hmem
  | keyboard => simpa using Bios.keyboardEffects_subset r h
  | _ => simp [effects, Video.effects] at h

theorem eq_of_publishing (h : .publishing ∈ s.effects r) : s = .video := by
  cases s with
  | video => rfl
  | dos =>
    have hmem : .publishing ∈ Dos.effects r := List.mem_of_ne_of_mem (by decide) h
    rw [Dos.effects] at hmem
    split at hmem
    case h_6 => simpa using Dos.consoleEffects_subset r hmem
    all_goals simp at hmem
  | keyboard => simpa using Bios.keyboardEffects_subset r h
  | _ => simp [effects] at h

theorem eq_of_printing (h : .printing ∈ s.effects r) : s = .video ∨ s = .dos := by
  cases s with
  | video => exact .inl rfl
  | dos => exact .inr rfl
  | keyboard => simpa using Bios.keyboardEffects_subset r h
  | _ => simp [effects] at h

end Causes
end Service
end RealMode.Pc
