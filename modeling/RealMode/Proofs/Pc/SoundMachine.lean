import RealMode.Pc.SaveState
import RealMode.Proofs.LastingProperty
import RealMode.Proofs.Pc.LoadedImage
import RealMode.Proofs.Pc.ServiceEffects
import RealMode.Proofs.RegisterAccess
import RealMode.Proofs.ServiceTable

/-! # Machines in operation

What a user can do with a machine is a list of operations, each of which may fail and leaves a
machine all the same.
-/
namespace RealMode

theorem Bus.Reaches.installVectors {M : Type} [Bus M] {m k : M} (h : Bus.Reaches m k) :
    Bus.Reaches m (RealMode.installVectors k) := by
  have hfold (vs : List Nat) {l : M} (hl : Bus.Reaches m l) : Bus.Reaches m (vs.foldl
      (fun m v => RealMode.writeVector m (UInt8.ofNat v) ⟨defaultSegment, defaultOffset⟩) l) := by
    induction vs generalizing l with
    | nil => exact hl
    | cons v vs ih => exact ih (hl.writeVector _ _)
  exact hfold _ (h.setByte _ _ _)

theorem Services.insertIfNew_erase {H : Type} {s : Services H} {v : UInt8} {h : H}
    (hreg : s.get? v = some h) : (s.erase v).insertIfNew v h = s := by
  rw [(TableChange.Without.erase hreg).insertIfNew_eq, insertIfNew, hreg]
  rfl

namespace Cpu

variable {M H : Type} [Bus M] (c : Cpu M H) (vector : UInt8) (p : FarPointer) (h : H)

theorem memory_reset : c.reset.memory = installVectors c.memory := by rw [reset]

theorem services_register : (c.register vector p h).services = c.services.insert vector h := by
  cases c
  rfl

theorem model_register : (c.register vector p h).model = c.model := by
  cases c
  rfl

theorem flags_register : (c.register vector p h).flags = c.flags := by
  cases c
  rfl

theorem memory_register : (c.register vector p h).memory =
    Bus.setByte (writeVector c.memory vector p) p.segment p.offset iretOpcode := by
  cases c
  rfl

end Cpu

namespace Pc

namespace Service

def changes : List (TableChange Service) :=
  (biosEntries ++ dosEntries).map fun e => .register e.vector e.service

/-- The services of the machine and no others. -/
def table : Services Service := TableChange.applyAll .empty changes

theorem applyAll_table : TableChange.applyAll table changes = table := by
  apply Services.ext_get?
  intro v
  rw [table, TableChange.get?_applyAll, TableChange.get?_applyAll]
  cases TableChange.lastPut? v changes <;> rfl

theorem get?_table_of_lastPut? {vector : UInt8} {s : Service}
    (h : TableChange.lastPut? vector changes = some (some s)) : table.get? vector = some s := by
  rw [table, TableChange.get?_applyAll, h]
  rfl

section RegisterAll

variable (c : Cpu Board Service) (e : EntryPoint) (entries : List EntryPoint)

theorem registerAll_cons : registerAll c (e :: entries) =
    registerAll (c.register e.vector e.pointer (ServiceHost.builtIn e.service)) entries := by
  simp only [registerAll, List.foldl_cons]

theorem services_registerAll : (registerAll c entries).services =
    TableChange.applyAll c.services (entries.map fun e => .register e.vector e.service) := by
  induction entries generalizing c with
  | nil => rfl
  | cons e entries ih =>
    rw [registerAll_cons, ih, Cpu.services_register, List.map_cons, TableChange.applyAll,
      TableChange.applyAll, List.foldl_cons]
    rfl

theorem model_registerAll : (registerAll c entries).model = c.model := by
  induction entries generalizing c with
  | nil => rfl
  | cons e entries ih => rw [registerAll_cons, ih, Cpu.model_register]

theorem flags_registerAll : (registerAll c entries).flags = c.flags := by
  induction entries generalizing c with
  | nil => rfl
  | cons e entries ih => rw [registerAll_cons, ih, Cpu.flags_register]

theorem reaches_registerAll : Bus.Reaches c.memory (registerAll c entries).memory := by
  induction entries generalizing c with
  | nil => exact .refl
  | cons e entries ih =>
    rw [registerAll_cons]
    refine Bus.Reaches.trans ?_ (ih _)
    rw [Cpu.memory_register]
    exact (Bus.Reaches.refl.writeVector _ _).setByte _ _ _

end RegisterAll
end Service

theorem Board.reaches_publishScreen {b k : Board} (h : Bus.Reaches b k) :
    Bus.Reaches b k.publishScreen :=
  ((h.setByte _ _ _).setByte _ _ _).setByte _ _ _

theorem Board.reaches_initDataArea (b : Board) : Bus.Reaches b b.initDataArea := by
  have hwords := (((Bus.Reaches.refl (m := b)).setWord dataSegment equipmentOffset
    equipmentWord).setWord dataSegment memorySizeOffset b.memoryKb).setWord dataSegment
    columnsOffset (UInt16.ofNat columns)
  have hsizes := (hwords.setWord dataSegment pageSizeOffset (UInt16.ofNat pageSize)).setByte
    dataSegment lastRowOffset (UInt8.ofNat (rows - 1))
  exact ((reaches_publishScreen hsizes).setBytes _ _ _).setByte _ _ _

/-- The processor as the machine sets it up, after whatever it may have executed. -/
structure Installed (config : Config) (c : Cpu Board Service) : Prop where
  services : c.services = Service.table
  model : c.model = config.model
  memoryKb : c.memory.memoryKb = config.memoryKb
  echo : c.memory.echo = config.echo
  onPage : c.memory.screen.OnPage
  failed : c.memory.failed = false
  flags : c.flags.WellFormed

namespace Installed

variable {config : Config} {c d : Cpu Board Service}

theorem steady (hc : Installed config c) (h : Steady d c) : Installed config d :=
  ⟨h.services.trans hc.services, h.model.trans hc.model, h.memory.memoryKb.trans hc.memoryKb,
    h.memory.echo.trans hc.echo, h.memory.screen.onPage hc.onPage,
    (h.memory.failed hc.onPage).trans hc.failed, h.flags hc.flags⟩

/-- A service has the table without itself and is put back into it. -/
theorem steady_finishService {vector : UInt8} {s : Service}
    (hreg : c.services.get? vector = some s) :
    Steady (Cpu.hostReturn { s.serve (c.atService vector) with
      services := (s.serve (c.atService vector)).services.insertIfNew vector s }) c := by
  let d := s.serve (c.atService vector)
  let e : Cpu Board Service := { d with services := d.services.insertIfNew vector s }
  have hframe := Steady.of_follows
    ((Cpu.Follows.refl c).note .interrupts .debug fun _ => Cpu.interruptText c.regs vector).pushFrame
  have hserve := (s.confined_serve (c.atService vector)).steady
  have hservices : e.services = c.services := by
    show d.services.insertIfNew vector s = c.services
    rw [hserve.services]
    exact Services.insertIfNew_erase hreg
  have he : Steady e c :=
    ⟨hservices, hserve.model.trans hframe.model, hserve.memory.trans hframe.memory,
      fun hc => hserve.flags (hframe.flags hc)⟩
  exact he.follows (Cpu.Follows.refl e).hostReturn

theorem lasting (config : Config) : Cpu.Lasting (Installed config) := by
  constructor
  · intro c d h hc
    exact hc.steady (.of_follows h)
  · intro c vector hc
    cases hreg : c.services.get? vector with
    | none =>
      exact ⟨_, Cpu.interrupt_of_no_service hreg,
        hc.steady (.of_follows ((Cpu.Follows.refl c).atVector vector))⟩
    | some s =>
      rw [Cpu.interrupt_of_service hreg]
      exact ⟨_, rfl, hc.steady (steady_finishService hreg)⟩

end Installed

section Boot

variable (c : Cpu Board Service)

theorem services_boot :
    (boot c).services = TableChange.applyAll c.services Service.changes := by
  unfold boot Service.installDos Service.installBios
  simp only [Cpu.services_note, Service.services_registerAll, Service.changes, List.map_append,
    TableChange.applyAll, List.foldl_append]

theorem model_boot : (boot c).model = c.model := by
  unfold boot Service.installDos Service.installBios
  simp only [Cpu.model_note, Service.model_registerAll]

theorem flags_boot : (boot c).flags = c.flags := by
  unfold boot Service.installDos Service.installBios
  simp only [Cpu.flags_note, Service.flags_registerAll]

theorem reaches_installBios : Bus.Reaches c.memory (Service.installBios c).memory := by
  rw [Service.installBios, Cpu.memory_note]
  exact c.memory.reaches_initDataArea.trans
    (Service.reaches_registerAll { c with memory := c.memory.initDataArea } _)

theorem reaches_installDos : Bus.Reaches c.memory (Service.installDos c).memory := by
  rw [Service.installDos, Cpu.memory_note]
  exact Service.reaches_registerAll c _

theorem reaches_boot : Bus.Reaches c.memory (boot c).memory :=
  (reaches_installBios _).trans (reaches_installDos _)

theorem steady_boot : (boot c).memory.Steady c.memory := .of_reaches (reaches_boot c)

theorem steady_reset : c.reset.memory.Steady c.memory := by
  rw [Cpu.memory_reset]
  exact .of_reaches Bus.Reaches.refl.installVectors

end Boot

/-- A board that has just been switched on: the cursor is home, and no access has missed. -/
structure Board.Fresh (config : Config) (b : Board) : Prop where
  memoryKb : b.memoryKb = config.memoryKb
  echo : b.echo = config.echo
  onPage : b.screen.OnPage
  failed : b.failed = false

namespace Board.Fresh

variable {config : Config}

theorem steady {b k : Board} (h : b.Fresh config) (hk : k.Steady b) : k.Fresh config :=
  ⟨hk.memoryKb.trans h.memoryKb, hk.echo.trans h.echo, hk.screen.onPage h.onPage,
    (hk.failed h.onPage).trans h.failed⟩

theorem reset {b : Board} (hmemory : b.memoryKb = config.memoryKb) (hecho : b.echo = config.echo) :
    b.reset.Fresh config := by
  have hhome : Screen.start.home.OnPage := ⟨by decide, by decide⟩
  simp only [Board.reset, onDisplay, display, Display.clear_eq]
  exact ⟨hmemory, hecho, hhome, rfl⟩

theorem new (config : Config) : (Board.new config.memoryKb config.echo).Fresh config := by
  rw [Board.new]
  exact reset rfl rfl

end Board.Fresh

namespace Installed

variable {config : Config} {c : Cpu Board Service}

theorem boot (hservices : TableChange.applyAll c.services Service.changes = Service.table)
    (hmodel : c.model = config.model) (hfresh : c.memory.Fresh config) (hflags : c.flags.WellFormed) :
    Installed config (Pc.boot c) := by
  have hbooted := hfresh.steady (steady_boot c)
  exact ⟨(services_boot c).trans hservices, (model_boot c).trans hmodel, hbooted.memoryKb,
    hbooted.echo, hbooted.onPage, hbooted.failed, (flags_boot c).symm ▸ hflags⟩

theorem new (journal : Journal) :
    Installed config (Pc.boot (.new (.new config.memoryKb config.echo) config.model journal)) := by
  have hfresh := (Board.Fresh.new config).steady (steady_reset (⟨.zero, .reset,
    .new config.memoryKb config.echo, .empty, 0, false, config.model, journal⟩ : Cpu Board Service))
  exact boot rfl rfl hfresh Flags.wellFormed_reset

theorem restart (hc : Installed config c) :
    Installed config (Pc.boot { ({ c with memory := c.memory.reset } : Cpu Board Service).reset with
      steps := 0 }) := by
  have hfresh : c.memory.reset.Fresh config := .reset hc.memoryKb hc.echo
  have hreset := hfresh.steady (steady_reset { c with memory := c.memory.reset })
  refine boot ?_ hc.model ?_ Flags.wellFormed_reset
  · show TableChange.applyAll c.services Service.changes = Service.table
    rw [hc.services]
    exact Service.applyAll_table
  · dsimp only
    exact hreset

end Installed

theorem Board.exists_reaches_placeProgram (b : Board) (segment : UInt16) (p : Program) :
    ∃ k, Bus.Reaches b k ∧
      Bus.Reaches { k with programSegment := segment } (placeProgram b segment p) := by
  have hsave {k : Board} (h : Bus.Reaches b k) (slot : UInt16) (vector : UInt8) :
      Bus.Reaches b (saveVector segment k slot vector) := (h.setWord _ _ _).setWord _ _ _
  have hstart := (((Bus.Reaches.refl (m := b)).fill segment 0 prefixSize 0).setBytes segment 0
    ⟨#[0xCD, 0x20]⟩).setWord segment 0x02 (UInt16.ofNat (min 0xFFFF (b.memoryKb.toNat * 64)))
  have hvectors := hsave (hsave (hsave hstart 0x0A 0x22) 0x0E 0x23) 0x12 0x24
  have hnames := (((hvectors.setWord segment 0x16 segment).setBytes segment 0x50
    ⟨#[0xCD, 0x21, 0xCB]⟩).fill segment 0x5D 11 0x20).fill segment 0x6D 11 0x20
  have htail := ((hnames.setByte segment 0x80 (UInt8.ofNat (tailBytes p.tail).size)).setBytes
    segment 0x81 (tailBytes p.tail)).setByte segment
      (0x81 + UInt16.ofNat (tailBytes p.tail).size) 0x0D
  exact ⟨_, htail, (Bus.Reaches.refl.setBytes _ _ _).setWord _ _ _⟩

theorem Board.Steady.placeProgram (b : Board) (segment : UInt16) (p : Program) :
    (Pc.placeProgram b segment p).Steady b := by
  obtain ⟨k, hk, hplaced⟩ := b.exists_reaches_placeProgram segment p
  have hsegment : ({ k with programSegment := segment } : Board).Steady k :=
    ⟨rfl, rfl, .refl _, fun _ => rfl⟩
  exact ((Board.Steady.of_reaches hplaced).trans hsegment).trans (.of_reaches hk)

theorem steady_startProgram (c : Cpu Board Service) (segment : UInt16) (p : Program) :
    Steady (startProgram c segment p) c := by
  have hplaced : Steady { c with
      memory := placeProgram c.memory segment p
      regs := entryRegisters segment
      flags := c.flags.setWord entryFlags
      halted := false } c :=
    ⟨rfl, rfl, .placeProgram c.memory segment p, fun hc => hc.setWord entryFlags⟩
  exact hplaced.follows ((Cpu.Follows.refl _).note .bios .info _)

theorem Config.clamped_clamped (config : Config) : config.clamped.clamped = config.clamped := by
  have hclamp : (UInt16.ofNat (max 64 (min 640 config.memoryKb.toNat))).toNat =
      max 64 (min 640 config.memoryKb.toNat) := by
    rw [UInt16.toNat_ofNat']
    omega
  have hagain : max 64 (min 640 (max 64 (min 640 config.memoryKb.toNat))) =
      max 64 (min 640 config.memoryKb.toNat) := by omega
  simp only [clamped, hclamp, hagain]

namespace Machine

/-- The machine that an action leaves, whether it succeeds or fails. -/
def after {H α : Type} (x : Action H α) (m : Machine H) : Machine H :=
  match x m with
  | .ok _ k => k
  | .error _ k => k

theorem after_bind {α β : Type} {x : Action Service α} {f : α → Action Service β}
    {m k : Machine Service} {a : α} (h : x m = .ok a k) : after (x >>= f) m = after (f a) k := by
  rw [after, bind_of_ok h, after]

theorem after_discard {α : Type} (x : Action Service α) (m : Machine Service) :
    after (do let _ ← x) m = after x m := by
  show after (EStateM.bind x fun _ => pure ()) m = _
  rw [after, EStateM.bind, after]
  cases x m <;> rfl

theorem liftCpu_apply {α : Type} {x : Exec Board Service α} {m : Machine Service} {a : α}
    {d : Cpu Board Service} (h : x m.cpu = .ok a d) :
    liftCpu x m = .ok a ⟨d, m.config, m.program⟩ := by
  simp only [liftCpu, h]

/-- A machine that is set up as its settings say. -/
structure Sound (m : Machine Service) : Prop where
  installed : Installed m.config m.cpu
  clamped : m.config.clamped = m.config
  image : ∀ p ∈ m.program, imageFault? p.image = none

namespace Sound

variable {m : Machine Service}

theorem withCpu (h : m.Sound) {c : Cpu Board Service} (hc : Installed m.config c) :
    (⟨c, m.config, m.program⟩ : Machine Service).Sound := ⟨hc, h.clamped, h.image⟩

theorem onCpu (h : m.Sound) {f : Cpu Board Service → Cpu Board Service}
    (hf : Steady (f m.cpu) m.cpu) : (m.onCpu f).Sound := h.withCpu (h.installed.steady hf)

theorem onBoard (h : m.Sound) {f : Board → Board} (hf : (f m.cpu.memory).Steady m.cpu.memory) :
    (m.onBoard f).Sound := h.onCpu (.withMemory m.cpu hf)

theorem onKeyboard (h : m.Sound) (f : Keyboard → Keyboard) :
    (m.onBoard fun b => { b with keyboard := f b.keyboard }).Sound :=
  h.onBoard (f := fun b => { b with keyboard := f b.keyboard }) ⟨rfl, rfl, .refl _, fun _ => rfl⟩

theorem pressKey (h : m.Sound) (scancode : UInt8) : (m.pressKey scancode).2.Sound :=
  h.onKeyboard fun k => (k.press scancode).2

theorem restart (h : m.Sound) : m.restart.Sound := h.withCpu h.installed.restart

theorem withProgram (h : m.Sound) {p : Option Program}
    (hp : ∀ q ∈ p, imageFault? q.image = none) : ({ m with program := p } : Machine Service).Sound :=
  ⟨h.installed, h.clamped, hp⟩

theorem setModel (h : m.Sound) (model : Model) : (m.setModel model).Sound := by
  have hi := h.installed
  exact ⟨⟨hi.services, rfl, hi.memoryKb, hi.echo, hi.onPage, hi.failed, hi.flags⟩,
    congrArg (fun c : Config => { c with model := model }) h.clamped, h.image⟩

theorem start (h : m.Sound) {p : Program} (hp : imageFault? p.image = none) :
    (⟨startProgram m.cpu m.config.loadSegment p, m.config, some p⟩ : Machine Service).Sound := by
  have hstart := h.withCpu (h.installed.steady (steady_startProgram m.cpu m.config.loadSegment p))
  refine hstart.withProgram fun q hq => ?_
  cases hq
  exact hp

end Sound

theorem Sound.liftCpu {m : Machine Service} (h : m.Sound) {α : Type} {x : Exec Board Service α}
    (hx : ∀ config, Upholds (Installed config) x) :
    ∃ a k, Machine.liftCpu x m = .ok a k ∧ k.Sound := by
  obtain ⟨a, c, hr, hc⟩ := (hx m.config).ok h.installed
  exact ⟨a, ⟨c, m.config, m.program⟩, liftCpu_apply hr, h.withCpu hc⟩

theorem sound_new (config : Config) (journal : Journal) :
    (new config journal : Machine Service).Sound := by
  exact ⟨.new journal, config.clamped_clamped, fun p hp => nomatch hp⟩

/-- The action leaves a machine that is related to the one it has found. -/
def Leaves (R : Machine Service → Machine Service → Prop) {α : Type} (x : Action Service α) : Prop :=
  ∀ m, R m (after x m)

/-- What holds from one machine to the next holds along a chain of them. -/
structure Chains (R : Machine Service → Machine Service → Prop) : Prop where
  refl : ∀ m, R m m
  trans : ∀ {k l m}, R k l → R l m → R k m

section Actions

variable {R : Machine Service → Machine Service → Prop} {α β : Type}

theorem Leaves.modify {f : Machine Service → Machine Service} (hf : ∀ m, R m (f m)) :
    Leaves R (modify f : Action Service PUnit) := hf

theorem Leaves.get_bind {f : Machine Service → Action Service β} (hf : ∀ m, Leaves R (f m)) :
    Leaves R (get >>= f) := fun m => hf m m

theorem Leaves.ite {p : Prop} [Decidable p] {x y : Action Service α} (hx : Leaves R x)
    (hy : Leaves R y) : Leaves R (if p then x else y) := by
  split
  next => exact hx
  next => exact hy

namespace Chains

variable (hR : Chains R)
include hR

theorem pure (a : α) : Leaves R (Pure.pure a : Action Service α) := hR.refl

theorem throw (e : MachineError) : Leaves R (MonadExcept.throw e : Action Service α) := hR.refl

theorem bind {x : Action Service α} {f : α → Action Service β} (hx : Leaves R x)
    (hf : ∀ a, Leaves R (f a)) : Leaves R (x >>= f) := by
  intro m
  have h := hx m
  show R m (after (EStateM.bind x f) m)
  unfold after EStateM.bind at *
  cases hr : x m with
  | error e k =>
    rw [hr] at h
    exact h
  | ok a k =>
    rw [hr] at h
    exact hR.trans h (hf a k)

theorem restorePart (state : Json) (name : String) (read : Json → Option α)
    {store : Machine Service → α → Machine Service} (hstore : ∀ m a, R m (store m a)) :
    Leaves R (Machine.restorePart state name read store) := by
  unfold Machine.restorePart
  split
  next => exact hR.pure ()
  next =>
    split
    next => exact hR.throw _
    next => exact Leaves.modify fun m => hstore m _

theorem loadState (state : Json) (hregisters : ∀ m i, R m (m.restoreRegisters i))
    (hmodel : ∀ m model, R m (m.setModel model))
    (hsteps : ∀ m n, R m (m.onCpu fun c => { c with steps := n }))
    (hhalted : ∀ m v, R m (m.onCpu fun c => { c with halted := v })) :
    Leaves R (Machine.loadState state) := by
  unfold Machine.loadState
  refine hR.bind (hR.restorePart state _ _ hregisters) fun _ =>
    hR.bind (hR.restorePart state _ _ hmodel) fun _ => ?_
  dsimp only
  split
  case' h_1 => refine hR.bind (Leaves.modify fun m => hsteps m _) fun _ => ?_
  all_goals
    split
    next => exact Leaves.modify fun m => hhalted m _
    next => exact hR.pure ()

theorem runUntilHalt (limit : Option Nat) (hrun : ∀ n, Leaves R (Machine.liftCpu (Cpu.run n)))
    (hnote : ∀ t, Leaves R (modify (·.onCpu fun c => c.note .bios .debug t))) :
    Leaves R (Machine.runUntilHalt limit) := by
  unfold Machine.runUntilHalt
  refine Leaves.get_bind fun _ => Leaves.ite (hR.bind (hR.throw _) fun _ => ?_) ?_
  all_goals
    refine Leaves.get_bind fun _ => hR.bind (hrun _) fun s => ?_
    exact hR.bind (hnote _) fun _ => hR.pure s

end Chains
end Actions

def SoundFrom (m k : Machine Service) : Prop := m.Sound → k.Sound

theorem chains_soundFrom : Chains SoundFrom := ⟨fun _ h => h, fun h k hm => k (h hm)⟩

def KeepsSound {α : Type} (x : Action Service α) : Prop := ∀ m, m.Sound → (after x m).Sound

namespace KeepsSound

theorem liftCpu {α : Type} {x : Exec Board Service α}
    (hx : ∀ config, Upholds (Installed config) x) : KeepsSound (Machine.liftCpu x) := by
  intro m hm
  obtain ⟨a, k, hr, hk⟩ := hm.liftCpu hx
  rw [after, hr]
  exact hk

theorem onCpu {f : Cpu Board Service → Cpu Board Service} (hf : ∀ c, (f c).Follows c) :
    KeepsSound (modify (·.onCpu f) : Action Service PUnit) :=
  fun m hm => hm.onCpu (.of_follows (hf m.cpu))

theorem load (image : ByteArray) (tail : String) : KeepsSound (Machine.load image tail) := by
  intro m hm
  unfold Machine.load
  cases hfault : imageFault? image with
  | some e => exact hm
  | none => exact hm.start (p := ⟨image, tail⟩) hfault

theorem step : KeepsSound Machine.step := liftCpu fun config => .step (Installed.lasting config)

theorem runUntilHalt (limit : Option Nat) : KeepsSound (Machine.runUntilHalt limit) :=
  chains_soundFrom.runUntilHalt limit
    (fun n => liftCpu fun config => .run (Installed.lasting config) n)
    (fun _ => onCpu fun c => (Cpu.Follows.refl c).note .bios .debug _)

theorem execute (x : ExecutionContext) : KeepsSound (Machine.execute x) :=
  liftCpu fun config => .runContext (Installed.lasting config) x

theorem mount (id : String) (image : ByteArray) : KeepsSound (Machine.mount id image) :=
  Leaves.ite (R := SoundFrom) (load image "") (chains_soundFrom.throw _)

theorem unmount (id : String) : KeepsSound (Machine.unmount id) :=
  Leaves.ite (R := SoundFrom)
    (fun _ hm => (hm.withProgram (p := none) fun _ hq => nomatch hq).restart)
    (chains_soundFrom.throw _)

theorem loadState (state : Json) : KeepsSound (Machine.loadState state) := by
  apply chains_soundFrom.loadState state
  · intro m i
    exact onCpu (f := fun c => { c with regs := i.regs, flags := c.flags.setWord i.flags })
      (fun _ => ⟨rfl, rfl, .refl, fun hc => hc.setWord i.flags⟩) m
  · intro m model hm
    exact hm.setModel model
  · intro m n
    exact onCpu (f := fun c => { c with steps := n }) (fun _ => ⟨rfl, rfl, .refl, id⟩) m
  · intro m v
    exact onCpu (f := fun c => { c with halted := v }) (fun _ => ⟨rfl, rfl, .refl, id⟩) m

end KeepsSound

theorem Sound.reset {m : Machine Service} (h : m.Sound) : m.reset.Sound := by
  unfold Machine.reset
  dsimp only
  split
  next => exact h.restart
  next p _ =>
    have hload := KeepsSound.load p.image p.tail _
      (h.restart.withProgram (p := none) fun _ hq => nomatch hq)
    unfold after at hload
    split
    next hr =>
      rw [hr] at hload
      exact hload
    next hr =>
      rw [hr] at hload
      exact hload.onCpu (.of_follows ((Cpu.Follows.refl _).note .bios .error _))

end Machine

/-- What a user can do with a machine. -/
inductive Operation where
  | load (image : ByteArray) (tail : String)
  | mount (id : String) (image : ByteArray)
  | unmount (id : String)
  | reset
  | step
  | run (limit : Option Nat)
  | execute (x : ExecutionContext)
  | typeText (text : String)
  | pressKey (scancode : UInt8)
  | loadState (state : Json)
  | setModel (model : Model)

namespace Operation

def action : Operation → Action Service Unit
  | load image tail => Machine.load image tail
  | mount id image => Machine.mount id image
  | unmount id => Machine.unmount id
  | reset => modify Machine.reset
  | step => Machine.step
  | run limit => do let _ ← Machine.runUntilHalt limit
  | execute x => do let _ ← Machine.execute x
  | typeText text => modify (·.typeText text)
  | pressKey scancode => modify fun m => (m.pressKey scancode).2
  | loadState state => Machine.loadState state
  | setModel model => modify (·.setModel model)

open Machine

theorem keepsSound_action (o : Operation) : KeepsSound o.action := by
  cases o with
  | load image tail => exact .load image tail
  | mount id image => exact .mount id image
  | unmount id => exact .unmount id
  | reset => exact fun m hm => hm.reset
  | step => exact .step
  | run limit =>
    exact chains_soundFrom.bind (KeepsSound.runUntilHalt limit) fun _ => chains_soundFrom.pure ()
  | execute x => exact chains_soundFrom.bind (KeepsSound.execute x) fun _ => chains_soundFrom.pure ()
  | typeText text =>
    exact fun m hm => hm.onKeyboard (·.paste text)
  | pressKey scancode => exact fun m hm => hm.pressKey scancode
  | loadState state => exact .loadState state
  | setModel model => exact fun m hm => hm.setModel model

end Operation

namespace Machine

/-- The machine after operations, whether or not they have failed. -/
def performAll (operations : List Operation) (m : Machine Service) : Machine Service :=
  operations.foldl (fun m o => after o.action m) m

theorem sound_performAll (operations : List Operation) {m : Machine Service} (h : m.Sound) :
    (performAll operations m).Sound := by
  induction operations generalizing m with
  | nil => exact h
  | cons o operations ih => exact ih (o.keepsSound_action m h)

end Machine

end Pc
end RealMode
