import RealMode.Proofs.ModelExtension
import RealMode.Proofs.Pc.PowerCycle
import RealMode.Proofs.Pc.ServedScreen
import RealMode.Proofs.Pc.TransparentCall

/-! # The exit code of a machine

Loading a program does not clear the code of the one before.
-/
namespace RealMode.Pc

theorem Board.exitCode_of_reaches {b k : Board} (h : Bus.Reaches b k) :
    k.exitCode = b.exitCode := (fixed_of_reaches h).exitCode

theorem Board.exitCode_reset (b : Board) : b.reset.exitCode = none := rfl

/-- The code with which a call of an interrupt ends the program, if it does: 0 for INT 20 and for
function 00 of INT 21, and AL for its function 4C. -/
def endingCode? (vector : UInt8) (r : Registers) : Option UInt8 :=
  if vector = 0x20 then some 0
  else if vector = 0x21 ∧ r.get8 .ah = 0x00 then some 0
  else if vector = 0x21 ∧ r.get8 .ah = 0x4C then some (r.get8 .al)
  else none

theorem endingCode?_eq_none {vector : UInt8} (h20 : vector ≠ 0x20) (h21 : vector ≠ 0x21)
    (r : Registers) : endingCode? vector r = none := by
  rw [endingCode?, if_neg h20, if_neg fun hv => h21 hv.1, if_neg fun hv => h21 hv.1]

theorem endingCode?_congr (vector : UInt8) {q r : Registers} (h : ∀ a, q.get8 a = r.get8 a) :
    endingCode? vector q = endingCode? vector r := by
  rw [endingCode?, endingCode?, h, h]

theorem exitCode_of_quiet {s : Service} {c : Cpu Board Service}
    (h : .ending ∉ s.effects c.regs) : (s.serve c).memory.exitCode = c.memory.exitCode :=
  (s.confined_serve c).board.exitCode h

theorem Dos.exitCode_serve (c : Cpu Board Service) : (serve c).memory.exitCode =
    (endingCode? 0x21 c.regs <|> c.memory.exitCode) := by
  let d := (c.note .bios .trace fun _ => callText c.regs).setFlag .carry false
  have hother : (0x21 : UInt8) ≠ 0x20 := by decide
  by_cases hterminate : c.regs.get8 .ah = 0x00
  · have hserve : serve c = terminate 0 d := by
      simp only [serve, hterminate]
      rfl
    rw [hserve, endingCode?, if_neg hother, if_pos ⟨rfl, hterminate⟩]
    rfl
  · by_cases hexit : c.regs.get8 .ah = 0x4C
    · have hserve : serve c = terminate (c.regs.get8 .al) d := by
        simp only [serve, hexit]
        rfl
      rw [hserve, endingCode?, if_neg hother, if_neg fun h => hterminate h.2,
        if_pos ⟨rfl, hexit⟩]
      rfl
    · have hquiet : .ending ∉ Service.dos.effects c.regs := by
        intro h
        rcases Service.eq_of_ending h with hs | ⟨-, hah⟩
        · exact Service.noConfusion hs
        · exact hah.elim hterminate hexit
      rw [endingCode?, if_neg hother, if_neg fun h => hterminate h.2, if_neg fun h => hexit h.2]
      exact exitCode_of_quiet hquiet

theorem Service.exists_entry {vector : UInt8} {s : Service} (h : table.get? vector = some s) :
    ∃ e ∈ biosEntries ++ dosEntries, e.vector = vector ∧ e.service = s := by
  rw [table, TableChange.get?_applyAll] at h
  cases hlast : TableChange.lastPut? vector changes with
  | none =>
    rw [hlast, Option.getD_none, Services.get?_empty] at h
    cases h
  | some put =>
    rw [hlast, Option.getD_some] at h
    subst h
    obtain ⟨change, hchange, hput⟩ := List.exists_of_findSome?_eq_some hlast
    rw [List.mem_reverse, changes, List.mem_map] at hchange
    obtain ⟨e, he, rfl⟩ := hchange
    rw [TableChange.put?, Option.ite_none_right_eq_some] at hput
    obtain ⟨hvector, hservice⟩ := hput
    cases hservice
    exact ⟨e, he, hvector, rfl⟩

theorem Service.exitCode_serve {vector : UInt8} {s : Service} (h : table.get? vector = some s)
    (c : Cpu Board Service) : (s.serve c).memory.exitCode =
      (endingCode? vector c.regs <|> c.memory.exitCode) := by
  obtain ⟨e, he, rfl, rfl⟩ := exists_entry h
  have hvectors : ∀ e ∈ biosEntries ++ dosEntries,
      (e.vector = 0x20 ↔ e.service = .terminate) ∧ (e.vector = 0x21 ↔ e.service = .dos) := by
    decide
  obtain ⟨hterminate, hdos⟩ := hvectors e he
  by_cases hd : e.service = .dos
  · rw [hd, hdos.mpr hd]
    exact Dos.exitCode_serve c
  · by_cases ht : e.service = .terminate
    · rw [ht, hterminate.mpr ht]
      rfl
    · have h20 : e.vector ≠ 0x20 := fun hv => ht (hterminate.mp hv)
      have h21 : e.vector ≠ 0x21 := fun hv => hd (hdos.mp hv)
      rw [endingCode?_eq_none h20 h21]
      exact exitCode_of_quiet fun h => (eq_of_ending h).elim ht fun h => hd h.1

def ending? (c : Cpu Board Service) : Option UInt8 :=
  c.raised?.bind fun vector => endingCode? vector c.regs

theorem exitCode_interrupt {c : Cpu Board Service} (hc : c.services = Service.table)
    (vector : UInt8) :
    ∃ d, Cpu.interrupt vector c = .ok () d ∧
      d.memory.exitCode = (endingCode? vector c.regs <|> c.memory.exitCode) := by
  cases hreg : c.services.get? vector with
  | none =>
    have hunserved : vector ∉ servedVectors := by
      intro hserved
      obtain ⟨s, hs, -⟩ := Service.get?_table hserved
      rw [hc, hs] at hreg
      exact nomatch hreg
    have h20 : vector ≠ 0x20 := fun hv => hunserved (hv ▸ by decide)
    have h21 : vector ≠ 0x21 := fun hv => hunserved (hv ▸ by decide)
    have hfollows := (Cpu.Follows.refl c).atVector vector
    refine ⟨_, Cpu.interrupt_of_no_service hreg, ?_⟩
    rw [Board.exitCode_of_reaches hfollows.memory, endingCode?_eq_none h20 h21]
    rfl
  | some s =>
    obtain ⟨d, hd, hmemory⟩ := interrupt_builtIn hreg
    have hframe : (c.atService vector).memory.exitCode = c.memory.exitCode :=
      Board.exitCode_of_reaches (c.reaches_atService vector)
    refine ⟨d, hd, ?_⟩
    rw [hmemory, Service.exitCode_serve (hc ▸ hreg), hframe,
      endingCode?_congr vector (c.get8_atService vector)]

/-- A step changes the exit code just if it ends the program. -/
theorem Installed.exitCode_step {config : Config} {c : Cpu Board Service}
    (hc : Installed config c) :
    ∃ d, Cpu.step c = .ok () d ∧ Installed config d ∧
      d.memory.exitCode = (ending? c <|> c.memory.exitCode) := by
  obtain ⟨_, d, hd, hinstalled⟩ := (Upholds.step (Installed.lasting config)).ok hc
  refine ⟨d, hd, hinstalled, ?_⟩
  rw [ending?]
  cases hraised : c.raised? with
  | some vector =>
    have hservices : c.atInstruction.services = Service.table :=
      (Cpu.services_atInstruction c).trans hc.services
    obtain ⟨e, he, hcode⟩ := exitCode_interrupt hservices vector
    rw [Cpu.step_of_raised hraised, he] at hd
    cases hd
    rw [hcode, endingCode?_congr vector c.get8_atInstruction, Cpu.memory_atInstruction]
    rfl
  | none =>
    obtain ⟨e, he, hfollows⟩ := Cpu.step_of_quiet hraised
    rw [he] at hd
    cases hd
    exact Board.exitCode_of_reaches hfollows.memory

/-- What has bearing on the exit code. -/
inductive Event where
  | powered
  | loaded
  | ended (code : UInt8)
  deriving DecidableEq, Repr

namespace Event

def code? : Event → Option UInt8
  | ended code => some code
  | powered | loaded => none

def isPowered : Event → Bool
  | powered => true
  | loaded | ended _ => false

/-- Whether there is a program afterwards that has not ended yet. -/
def isFresh : Event → Bool
  | powered | loaded => true
  | ended _ => false

end Event

/-- The code of the latest ending since the latest event of a kind, in a history that has its
latest event first. -/
def codeSince (kind : Event → Bool) (history : List Event) : Option UInt8 :=
  (history.takeWhile fun e => !kind e).findSome? Event.code?

section CodeSince

variable {kind : Event → Bool} {e : Event} (history : List Event)

theorem codeSince_cons (h : kind e = false) :
    codeSince kind (e :: history) = (e.code? <|> codeSince kind history) := by
  rw [codeSince, List.takeWhile_cons_of_pos (by rw [h]; rfl), List.findSome?_cons]
  cases e.code? <;> rfl

theorem codeSince_cons_of_kind (h : kind e) : codeSince kind (e :: history) = none := by
  rw [codeSince, List.takeWhile_cons_of_neg (by rw [h]; decide)]
  rfl

end CodeSince

/-- It matters that loading does not clear the code only where that is the latest event. -/
theorem codeSince_isPowered_eq_iff (events : List Event) :
    codeSince Event.isPowered events = codeSince Event.isFresh events ↔
      ¬ (events.head? = some .loaded ∧ (codeSince Event.isPowered events).isSome) := by
  cases events with
  | nil => exact iff_of_true rfl fun h => nomatch h.1
  | cons e events =>
    cases e with
    | powered => exact iff_of_true rfl fun h => nomatch h.1
    | ended code =>
      refine iff_of_true ?_ fun h => nomatch h.1
      rw [codeSince_cons events rfl, codeSince_cons events rfl]
      rfl
    | loaded =>
      have hfresh : codeSince Event.isFresh (.loaded :: events) = none :=
        codeSince_cons_of_kind events rfl
      rw [hfresh, List.head?_cons, Option.isSome_iff_ne_none]
      simp only [true_and, Decidable.not_not, ne_eq]

/-- The events, the latest first, tell how one exit code has come of another. -/
def Accounts (events : List Event) (before after : Option UInt8) : Prop :=
  ∀ history, codeSince Event.isPowered history = before →
    codeSince Event.isPowered (events ++ history) = after

namespace Accounts

theorem nil (code : Option UInt8) : Accounts [] code code := fun _ h => h

theorem trans {es fs : List Event} {x y z : Option UInt8} (h : Accounts fs y z)
    (k : Accounts es x y) : Accounts (fs ++ es) x z := by
  intro history hx
  rw [List.append_assoc]
  exact h _ (k history hx)

theorem powered (code : Option UInt8) : Accounts [.powered] code none :=
  fun history _ => codeSince_cons_of_kind history rfl

theorem loaded (code : Option UInt8) : Accounts [.loaded] code code := by
  intro history h
  rw [List.singleton_append, codeSince_cons history rfl, h]
  rfl

theorem ended (code : Option UInt8) (ending : UInt8) :
    Accounts [.ended ending] code (some ending) :=
  fun history _ => codeSince_cons history rfl

end Accounts

def stepEvents (c : Cpu Board Service) : List Event := ((ending? c).map Event.ended).toList

def runEvents (start : Nat) (limit : Option Nat) : Nat → Cpu Board Service → List Event
  | 0, _ => []
  | fuel + 1, c =>
    if c.halted then []
    else if limit.any (· ≤ c.steps - start) then []
    else runEvents start limit fuel (Cpu.stateAfter (Cpu.step c)) ++ stepEvents c

theorem accounts_stepEvents (c : Cpu Board Service) (code : Option UInt8) :
    Accounts (stepEvents c) code (ending? c <|> code) := by
  rw [stepEvents]
  cases ending? c with
  | none => exact .nil code
  | some ending => exact .ended code ending

theorem Installed.accounts_runFrom (start : Nat) (limit : Option Nat) (fuel : Nat) {config : Config}
    {c : Cpu Board Service} (hc : Installed config c) :
    ∃ s d, Cpu.runFrom start limit fuel c = .ok s d ∧
      Accounts (runEvents start limit fuel c) c.memory.exitCode d.memory.exitCode := by
  induction fuel generalizing c with
  | zero => exact ⟨_, c, rfl, .nil _⟩
  | succ fuel ih =>
    rw [Cpu.runFrom_succ_apply, runEvents]
    by_cases hhalted : c.halted
    · rw [if_pos hhalted, if_pos hhalted]
      exact ⟨_, c, rfl, .nil _⟩
    rw [if_neg hhalted, if_neg hhalted]
    by_cases hdone : limit.any (· ≤ c.steps - start)
    · rw [if_pos hdone, if_pos hdone]
      exact ⟨_, c, rfl, .nil _⟩
    rw [if_neg hdone, if_neg hdone]
    obtain ⟨d, hd, hinstalled, hcode⟩ := hc.exitCode_step
    obtain ⟨s, e, he, haccounts⟩ := ih hinstalled
    refine ⟨s, e, (bind_of_ok hd).trans he, ?_⟩
    have hstep := accounts_stepEvents c c.memory.exitCode
    rw [← hcode] at hstep
    rw [hd]
    exact haccounts.trans hstep

def runEventsNow (limit : Option Nat) (c : Cpu Board Service) : List Event :=
  runEvents c.steps limit (limit.getD Cpu.unlimited + 1) c

theorem Installed.accounts_run (limit : Option Nat) {config : Config} {c : Cpu Board Service}
    (hc : Installed config c) :
    ∃ s d, Cpu.run limit c = .ok s d ∧
      Accounts (runEventsNow limit c) c.memory.exitCode d.memory.exitCode :=
  hc.accounts_runFrom c.steps limit (limit.getD Cpu.unlimited + 1)

theorem exitCode_startProgram (c : Cpu Board Service) (segment : UInt16) (p : Program) :
    (startProgram c segment p).memory.exitCode = c.memory.exitCode := by
  obtain ⟨k, hk, hplaced⟩ := c.memory.exists_reaches_placeProgram segment p
  have hcode : k.exitCode = c.memory.exitCode := Board.exitCode_of_reaches hk
  rw [memory_startProgram, Board.exitCode_of_reaches hplaced]
  exact hcode

namespace Machine

theorem exitCode_boot {c : Cpu Board Service} (h : c.memory.exitCode = none) :
    (boot c).memory.exitCode = none :=
  (Board.exitCode_of_reaches (reaches_boot c)).trans h

theorem exitCode_restart (m : Machine Service) : m.restart.exitCode = none := by
  have hvectors := Board.exitCode_of_reaches
    (b := m.cpu.memory.reset) Bus.Reaches.refl.installVectors
  rw [restart_eq]
  apply exitCode_boot
  dsimp only
  rw [Cpu.memory_reset, hvectors]
  exact m.cpu.memory.exitCode_reset

theorem exitCode_new (config : Config) (journal : Journal) :
    (new config journal : Machine Service).exitCode = none := by
  have hvectors := Board.exitCode_of_reaches
    (b := .new config.clamped.memoryKb config.clamped.echo) Bus.Reaches.refl.installVectors
  apply exitCode_boot
  rw [Cpu.new, Cpu.memory_reset, hvectors]
  exact Board.exitCode_reset _

theorem exitCode_reset {m : Machine Service} (h : m.Sound) : m.reset.exitCode = none := by
  cases hp : m.program with
  | none =>
    rw [reset_of_no_program hp]
    exact m.exitCode_restart
  | some p =>
    have hrestart := m.exitCode_restart
    rw [exitCode] at hrestart
    rw [reset_of_program hp (h.image p hp), exitCode, exitCode_startProgram, hrestart]

theorem exitCode_loadState (state : Json) (m : Machine Service) :
    (after (loadState state) m).exitCode = m.exitCode := by
  have hchains : Chains fun m k : Machine Service => k.exitCode = m.exitCode :=
    ⟨fun _ => rfl, fun h k => k.trans h⟩
  apply hchains.loadState state
  · intro m i
    rfl
  · intro m model
    rfl
  · intro m n
    rfl
  · intro m v
    rfl

end Machine

def Machine.succeeds {α : Type} (x : Action Service α) (m : Machine Service) : Bool :=
  match x m with
  | .ok _ _ => true
  | .error _ _ => false

/-- What an operation has to do with the exit code, the latest event first. -/
def Operation.events (o : Operation) (m : Machine Service) : List Event :=
  match o with
  | load .. | mount .. => if Machine.succeeds o.action m then [.loaded] else []
  | unmount .. => if Machine.succeeds o.action m then [.powered] else []
  | reset => [.powered]
  | step => stepEvents m.cpu
  | run limit => if m.program.isNone then [] else runEventsNow (limit <|> m.config.stepLimit) m.cpu
  | execute x => runEventsNow x.limit (m.cpu.enterContext x)
  | typeText .. | pressKey .. | loadState .. | setModel .. => []

namespace Machine

def history : List Operation → Machine Service → List Event
  | [], _ => []
  | o :: operations, m => history operations (after o.action m) ++ o.events m

theorem accounts_load (image : ByteArray) (tail : String) (m : Machine Service) :
    Accounts (if succeeds (load image tail) m then [.loaded] else []) m.exitCode
      (after (load image tail) m).exitCode := by
  cases hfault : imageFault? image with
  | none =>
    have hload := load_of_imageFault hfault m tail
    have hcode : (after (load image tail) m).exitCode = m.exitCode := by
      simp only [after, hload, exitCode, exitCode_startProgram]
    rw [hcode, succeeds, hload]
    exact .loaded _
  | some e =>
    have hload : load image tail m = .error e m := by
      unfold load
      rw [hfault]
      rfl
    rw [succeeds, after, hload]
    exact .nil _

theorem accounts_mount (id : String) (image : ByteArray) (m : Machine Service) :
    Accounts (if succeeds (mount id image) m then [.loaded] else []) m.exitCode
      (after (mount id image) m).exitCode := by
  by_cases hid : id = programMount.id
  · rw [mount, if_pos hid]
    exact accounts_load image "" m
  · rw [mount, if_neg hid]
    exact .nil _

theorem accounts_unmount (id : String) (m : Machine Service) :
    Accounts (if succeeds (unmount id) m then [.powered] else []) m.exitCode
      (after (unmount id) m).exitCode := by
  by_cases hid : id = programMount.id
  · have hunmount : after (unmount id) m =
        ({ m with program := none } : Machine Service).restart := by
      rw [unmount, if_pos hid]
      rfl
    rw [hunmount, exitCode_restart, unmount, if_pos hid]
    exact .powered _
  · rw [unmount, if_neg hid]
    exact .nil _

theorem after_runUntilHalt_of_no_program {m : Machine Service} (limit : Option Nat)
    (hp : m.program.isNone) : after (runUntilHalt limit) m = m := by
  unfold runUntilHalt
  show after (if m.program.isNone then _ else _) m = m
  rw [if_pos hp]
  rfl

theorem exitCode_runUntilHalt {m : Machine Service} {limit : Option Nat} {s : RunSummary}
    {d : Cpu Board Service} (hp : ¬ m.program.isNone)
    (hrun : Cpu.run (limit <|> m.config.stepLimit) m.cpu = .ok s d) :
    (after (runUntilHalt limit) m).exitCode = d.memory.exitCode := by
  unfold runUntilHalt
  show (after (if m.program.isNone then _ else _) m).exitCode = _
  rw [if_neg hp]
  show (after (liftCpu (Cpu.run (limit <|> m.config.stepLimit)) >>= _) m).exitCode = _
  rw [after_bind (liftCpu_apply hrun)]
  rfl

namespace Sound

variable {m : Machine Service} (h : m.Sound)
include h

theorem accounts_run (limit : Option Nat) :
    Accounts ((Operation.run limit).events m) m.exitCode
      (after (Operation.run limit).action m).exitCode := by
  rw [Operation.events, Operation.action, after_discard]
  by_cases hp : m.program.isNone
  · rw [if_pos hp, after_runUntilHalt_of_no_program limit hp]
    exact .nil _
  · obtain ⟨s, d, hrun, haccounts⟩ := h.installed.accounts_run (limit <|> m.config.stepLimit)
    rw [if_neg hp, exitCode_runUntilHalt hp hrun]
    exact haccounts

theorem accounts_execute (x : ExecutionContext) :
    Accounts ((Operation.execute x).events m) m.exitCode
      (after (Operation.execute x).action m).exitCode := by
  have hfollows := (Cpu.Follows.refl m.cpu).enterContext x
  have hentered : Installed m.config (m.cpu.enterContext x) :=
    h.installed.steady (.of_follows hfollows)
  obtain ⟨s, d, hrun, haccounts⟩ := hentered.accounts_run x.limit
  have hexecute : Machine.execute x m = .ok s ⟨d, m.config, m.program⟩ := liftCpu_apply hrun
  rw [Board.exitCode_of_reaches hfollows.memory] at haccounts
  rw [Operation.events, Operation.action, after_discard, after, hexecute]
  exact haccounts

theorem accounts_step :
    Accounts (Operation.step.events m) m.exitCode (after Operation.step.action m).exitCode := by
  obtain ⟨d, hd, -, hcode⟩ := h.installed.exitCode_step
  have hstep : after Operation.step.action m = ⟨d, m.config, m.program⟩ := by
    rw [Operation.action, after, Machine.step, liftCpu_apply hd]
  have haccounts := accounts_stepEvents m.cpu m.exitCode
  rw [exitCode, ← hcode] at haccounts
  rw [hstep]
  exact haccounts

theorem accounts_action (o : Operation) :
    Accounts (o.events m) m.exitCode (after o.action m).exitCode := by
  cases o with
  | load image tail => exact accounts_load image tail m
  | mount id image => exact accounts_mount id image m
  | unmount id => exact accounts_unmount id m
  | reset =>
    have hcode : (after Operation.reset.action m).exitCode = none := exitCode_reset h
    rw [hcode]
    exact .powered _
  | step => exact h.accounts_step
  | run limit => exact h.accounts_run limit
  | execute x => exact h.accounts_execute x
  | typeText text => exact .nil _
  | pressKey scancode => exact .nil _
  | loadState state =>
    have hcode : (after (Operation.loadState state).action m).exitCode = m.exitCode :=
      exitCode_loadState state m
    rw [hcode]
    exact .nil _
  | setModel model => exact .nil _

theorem accounts_history (operations : List Operation) :
    Accounts (history operations m) m.exitCode (performAll operations m).exitCode := by
  induction operations generalizing m with
  | nil => exact .nil _
  | cons o operations ih =>
    have hnext := o.keepsSound_action m h
    exact (ih hnext).trans (h.accounts_action o)

end Sound

/-- The exit code of a machine is that of the latest ending since the power has come on, whatever
has been done. It is that of the present program unless that has been loaded after the end of
another one and has not ended since. -/
theorem exitCode_present_iff (config : Config) (journal : Journal) (operations : List Operation) :
    let m := performAll operations (new config journal)
    let events := history operations (new config journal)
    m.exitCode = codeSince Event.isPowered events ∧
      (m.exitCode = codeSince Event.isFresh events ↔
        ¬ (events.head? = some .loaded ∧ (codeSince Event.isPowered events).isSome)) := by
  intro m events
  have haccounts : Accounts events _ m.exitCode :=
    (sound_new config journal).accounts_history operations
  have hcode : m.exitCode = codeSince Event.isPowered events := by
    have hstart := haccounts [] (exitCode_new config journal).symm
    rw [List.append_nil] at hstart
    exact hstart.symm
  refine ⟨hcode, ?_⟩
  rw [hcode]
  exact codeSince_isPowered_eq_iff events

def reloading : List Operation :=
  [.load (callImage 0x20) "", .step, .load (callImage 0x20) ""]

theorem events_load_callImage (vector : UInt8) (m : Machine Service) :
    (Operation.load (callImage vector) "").events m = [.loaded] := by
  rw [Operation.events, Operation.action, succeeds, load_callImage]
  rfl

theorem stepEvents_of_load {m k : Machine Service} (h : load (callImage 0x20) "" m = .ok () k) :
    stepEvents k.cpu = [.ended 0] := by
  rw [stepEvents, ending?, (calls_of_load h).raised?_eq]
  rfl

theorem history_reloading :
    history reloading (new .standard .silent) = [.loaded, .ended 0, .loaded] := by
  have hstep := stepEvents_of_load (load_callImage (new .standard .silent) 0x20)
  rw [reloading, history, history, history, history, events_load_callImage, events_load_callImage,
    Operation.events, after, Operation.action, load_callImage, hstep]
  rfl

/-- The program has not run since, and the machine gives an exit code all the same. -/
theorem code_outlives_program :
    (performAll reloading (new .standard .silent)).exitCode = some 0 ∧
      codeSince Event.isFresh (history reloading (new .standard .silent)) = none := by
  have haccounts := (sound_new .standard .silent).accounts_history reloading
  rw [history_reloading] at haccounts ⊢
  exact ⟨(haccounts [] (exitCode_new .standard .silent).symm).symm, rfl⟩

end Machine
end RealMode.Pc
