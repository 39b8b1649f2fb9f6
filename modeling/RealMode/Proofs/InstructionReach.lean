import RealMode.Proofs.FlagsImage
import RealMode.Run

/-! # How far an instruction reaches -/
namespace RealMode

theorem bind_of_ok {ε σ α β : Type} {x : EStateM ε σ α} {f : α → EStateM ε σ β} {s t : σ} {a : α}
    (h : x s = .ok a t) : (x >>= f) s = f a t := by
  show EStateM.bind x f s = _
  rw [EStateM.bind, h]

section Reaches

variable {M : Type} [Bus M]

/-- What accesses over the bus can make of a memory. -/
inductive Bus.Reaches (m : M) : M → Prop where
  | refl : Reaches m m
  | write {k : M} (h : Reaches m k) (a : Nat) (v : UInt8) : Reaches m (Bus.write k a v)
  | writeBlock {k : M} (h : Reaches m k) (a : Nat) (data : ByteArray) :
    Reaches m (Bus.writeBlock k a data)
  | portIn {k : M} (h : Reaches m k) (port : UInt16) : Reaches m (Bus.portIn k port).bus
  | portOut {k : M} (h : Reaches m k) (port : UInt16) (v : UInt8) :
    Reaches m (Bus.portOut k port v).bus

namespace Bus.Reaches

variable {m k : M} (h : Reaches m k)
include h

theorem trans {l : M} (h' : Reaches k l) : Reaches m l := by
  induction h' with
  | refl => exact h
  | write _ a v ih => exact ih.write a v
  | writeBlock _ a data ih => exact ih.writeBlock a data
  | portIn _ port ih => exact ih.portIn port
  | portOut _ port v ih => exact ih.portOut port v

theorem setByte (segment offset : UInt16) (v : UInt8) :
    Reaches m (Bus.setByte k segment offset v) := h.write _ v

theorem setWord (segment offset v : UInt16) : Reaches m (Bus.setWord k segment offset v) :=
  (h.setByte segment offset _).setByte segment (offset + 1) _

theorem fold {n : Nat} {f : (i : Nat) → i < n → M → M}
    (hf : ∀ i hi l, Reaches m l → Reaches m (f i hi l)) : Reaches m (n.fold f k) := by
  induction n with
  | zero => exact h
  | succ n ih =>
    rw [Nat.fold_succ]
    exact hf n _ _ (ih fun i hi l hl => hf i _ l hl)

theorem setBytes (segment offset : UInt16) (data : ByteArray) :
    Reaches m (Bus.setBytes k segment offset data) := by
  unfold Bus.setBytes
  split
  next => exact h.fold fun _ _ _ hl => hl.write _ _
  next => exact h.writeBlock _ data

theorem fill (segment offset : UInt16) (count : Nat) (v : UInt8) :
    Reaches m (Bus.fill k segment offset count v) :=
  h.fold fun _ _ _ hl => hl.setByte _ _ v

theorem copy (srcSegment srcOffset dstSegment dstOffset : UInt16) (count : Nat)
    (d : Direction) :
    Reaches m (Bus.copy k srcSegment srcOffset dstSegment dstOffset count d) := by
  unfold Bus.copy
  split
  next => exact h.writeBlock _ _
  next => exact h.fold fun _ _ _ hl => hl.setByte _ _ _

theorem portInWord (port : UInt16) : Reaches m (Bus.portInWord k port).bus :=
  (h.portIn port).portIn (port + 1)

theorem portOutWord (port v : UInt16) : Reaches m (Bus.portOutWord k port v).bus :=
  (h.portOut port _).portOut (port + 1) _

theorem writeVector (vector : UInt8) (p : FarPointer) :
    Reaches m (RealMode.writeVector k vector p) := (h.setWord 0 _ _).setWord 0 _ _

end Bus.Reaches
end Reaches

namespace Cpu

variable {M H : Type}

def SameServices (d c : Cpu M H) : Prop := d.services = c.services

variable [Bus M]

/-- The state in which the instruction at CS:IP is executed. -/
def atInstruction (c : Cpu M H) : Cpu M H :=
  let i := c.decoded.instruction
  let d := c.noteAll (c.decoded.notes c.regs.cs c.regs.ip)
  (d.note .cpu .trace fun _ => stepText d.regs d.flags i).fetched i

theorem regs_atInstruction (c : Cpu M H) : c.atInstruction.regs =
    { c.regs with ip := c.regs.ip + UInt16.ofNat c.decoded.instruction.length } := by
  cases c
  rfl

theorem get8_atInstruction (c : Cpu M H) (r : Reg8) :
    c.atInstruction.regs.get8 r = c.regs.get8 r := by
  rw [regs_atInstruction]
  cases r <;> rfl

theorem flags_atInstruction (c : Cpu M H) : c.atInstruction.flags = c.flags := by
  cases c
  rfl

theorem memory_atInstruction (c : Cpu M H) : c.atInstruction.memory = c.memory := by
  cases c
  rfl

theorem services_atInstruction (c : Cpu M H) : c.atInstruction.services = c.services := by
  cases c
  rfl

theorem halted_atInstruction (c : Cpu M H) : c.atInstruction.halted = c.halted := by
  cases c
  rfl

theorem step_of_running [HostService M H] {c : Cpu M H} (h : c.halted = false) :
    step c = c.decoded.instruction.execute c.atInstruction := by
  show (if c.halted then _ else _ : Exec M H Unit) c = _
  rw [h]
  rfl

theorem step_of_halted [HostService M H] {c : Cpu M H} (h : c.halted = true) :
    step c = .ok () c := by
  show (if c.halted then _ else _ : Exec M H Unit) c = _
  rw [h]
  rfl

/-- A state that instructions can make of another one. -/
structure Follows (d c : Cpu M H) : Prop where
  services : d.SameServices c
  model : d.model = c.model
  memory : Bus.Reaches c.memory d.memory
  flags : c.flags.WellFormed → d.flags.WellFormed

namespace Follows

theorem refl (c : Cpu M H) : c.Follows c := ⟨rfl, rfl, .refl, id⟩

theorem trans {c d e : Cpu M H} (h : e.Follows d) (k : d.Follows c) : e.Follows c :=
  ⟨h.services.trans k.services, h.model.trans k.model, k.memory.trans h.memory, h.flags ∘ k.flags⟩

variable {c d : Cpu M H} (h : d.Follows c)
include h

section Registers

theorem setReg (r : Reg16) (v : UInt16) : (d.setReg r v).Follows c := by
  cases d
  exact ⟨h.services, h.model, h.memory, h.flags⟩

theorem setReg8 (r : Reg8) (v : UInt8) : (d.setReg8 r v).Follows c := by
  cases d
  exact ⟨h.services, h.model, h.memory, h.flags⟩

theorem setSeg (s : SegReg) (v : UInt16) : (d.setSeg s v).Follows c := by
  cases d
  exact ⟨h.services, h.model, h.memory, h.flags⟩

theorem setIp (v : UInt16) : (d.setIp v).Follows c := by
  cases d
  exact ⟨h.services, h.model, h.memory, h.flags⟩

theorem setRegs (r : Registers) : (d.setRegs r).Follows c := by
  cases d
  exact ⟨h.services, h.model, h.memory, h.flags⟩

theorem setFlags {f : Flags} (hf : d.flags.WellFormed → f.WellFormed) :
    (d.setFlags f).Follows c := by
  cases d
  exact ⟨h.services, h.model, h.memory, fun hc => hf (h.flags hc)⟩

theorem setFlag (f : Flag) (v : Bool) : (d.setFlag f v).Follows c := by
  cases d
  exact ⟨h.services, h.model, h.memory, fun hc => (h.flags hc).set f v⟩

theorem note (a : Category) (l : Level) (t : Unit → String) : (d.note a l t).Follows c := by
  cases d
  exact ⟨h.services, h.model, h.memory, h.flags⟩

theorem noteAll (ns : List Note) : (d.noteAll ns).Follows c := by
  cases d
  exact ⟨h.services, h.model, h.memory, h.flags⟩

theorem drop : d.drop.Follows c := by
  cases d
  exact ⟨h.services, h.model, h.memory, h.flags⟩

theorem withMemory {k : M} (hk : Bus.Reaches c.memory k) :
    ({ d with memory := k } : Cpu M H).Follows c := ⟨h.services, h.model, hk, h.flags⟩

theorem withHalted (v : Bool) : ({ d with halted := v } : Cpu M H).Follows c :=
  ⟨h.services, h.model, h.memory, h.flags⟩

theorem advance (r : Reg16) (w : Width) (n : Nat) : (d.advance r w n).Follows c := by
  cases d
  exact ⟨h.services, h.model, h.memory, h.flags⟩

theorem setAccumulator (w : Width) (v : UInt16) : (d.setAccumulator w v).Follows c := by
  cases w
  · exact h.setReg8 .al _
  · exact h.setReg .ax _

theorem setCarryOverflow (v : Bool) : (d.setCarryOverflow v).Follows c :=
  h.setFlags fun hd => (hd.set .carry v).set .overflow v

theorem fetched (i : Instruction) : (d.fetched i).Follows c := by
  cases d
  exact ⟨h.services, h.model, h.memory, h.flags⟩

theorem atInstruction : d.atInstruction.Follows c := ((h.noteAll _).note .cpu .trace _).fetched _

theorem enterContext (x : ExecutionContext) : (d.enterContext x).Follows c := by
  cases d
  exact ⟨h.services, h.model, h.memory, h.flags⟩

theorem jump (p : FarPointer) : (d.jump p).Follows c := by
  cases d
  exact ⟨h.services, h.model, h.memory, h.flags⟩

end Registers

section Arithmetic

theorem multiply (w : Width) (v : UInt16) : (d.multiply w v).Follows c := by
  cases w
  · exact ((h.setReg .ax _).setFlags fun hd => hd.ofResult _ _).setCarryOverflow _
  · exact (((h.setReg .ax _).setReg .dx _).setFlags fun hd => hd.ofResult _ _).setCarryOverflow _

theorem multiplySigned (w : Width) (v : UInt16) : (d.multiplySigned w v).Follows c := by
  cases w
  · exact ((h.setReg .ax _).setFlags fun hd => hd.ofResult _ _).setCarryOverflow _
  · exact (((h.setReg .ax _).setReg .dx _).setFlags fun hd => hd.ofResult _ _).setCarryOverflow _

theorem decimalAdjust (step : Int → Int) : (d.decimalAdjust step).Follows c :=
  (h.setReg8 .al _).setFlags fun hd => ((hd.set .auxiliary _).set .carry _).ofResult _ _

theorem asciiAdjust (ax ah : Int) : (d.asciiAdjust ax ah).Follows c :=
  (h.setRegs _).setFlags fun hd => (hd.set .auxiliary _).set .carry _

theorem splitDigits (base : UInt8) : (d.splitDigits base).Follows c :=
  ((h.setReg8 .ah _).setReg8 .al _).setFlags fun hd => hd.ofResult _ _

theorem joinDigits (base : UInt8) : (d.joinDigits base).Follows c :=
  (h.setReg .ax _).setFlags fun hd => hd.ofResult _ _

theorem divide? {e : Cpu M H} {w : Width} {v : UInt16} (hd : d.divide? w v = some e) :
    e.Follows c := by
  cases w <;>
    simp only [Cpu.divide?, Option.ite_none_left_eq_some, Option.some.injEq] at hd <;>
    obtain ⟨-, -, rfl⟩ := hd
  · exact (h.setReg8 .al _).setReg8 .ah _
  · exact (h.setReg .ax _).setReg .dx _

theorem divideSigned? {e : Cpu M H} {w : Width} {v : UInt16}
    (hd : d.divideSigned? w v = some e) : e.Follows c := by
  cases w <;>
    simp only [Cpu.divideSigned?, Option.ite_none_left_eq_some, Option.some.injEq] at hd <;>
    obtain ⟨-, -, rfl⟩ := hd
  · exact (h.setReg8 .al _).setReg8 .ah _
  · exact (h.setReg .ax _).setReg .dx _

end Arithmetic

section Repetition

theorem nat_repeat {f : Cpu M H → Cpu M H} (hf : ∀ e, e.Follows c → (f e).Follows c)
    (n : Nat) : (Nat.repeat f n d).Follows c := by
  induction n with
  | zero => exact h
  | succ n ih => exact hf _ ih

theorem foldl {f : Cpu M H → Reg16 → Cpu M H} (hf : ∀ e r, e.Follows c → (f e r).Follows c)
    (rs : List Reg16) : (rs.foldl f d).Follows c := by
  induction rs generalizing d with
  | nil => exact h
  | cons r rs ih => exact ih (hf d r h)

theorem compareMass {compare : Cpu M H → Cpu M H}
    (hf : ∀ e, e.Follows c → (compare e).Follows c) (how : Repeat) (count done : Nat) :
    (compareMass compare how count done d).2.Follows c := by
  induction count generalizing done d with
  | zero => exact h
  | succ n ih =>
    unfold Cpu.compareMass
    dsimp only
    split
    next => exact hf d h
    next => exact ih (hf d h) (done + 1)

end Repetition

section Stack

theorem push (v : UInt16) : (d.push v).Follows c :=
  (h.withMemory (h.memory.setWord _ _ v)).setReg .sp _

theorem popReg (r : Reg16) : (d.popReg r).Follows c := h.drop.setReg r _

theorem pushAll : d.pushAll.Follows c :=
  ((h.foldl (fun _ _ he => he.push _) _).push _).foldl (fun _ _ he => he.push _) _

theorem popAll : d.popAll.Follows c :=
  (h.foldl (fun _ r he => he.popReg r) _).drop.foldl (fun _ r he => he.popReg r) _

theorem copyFramePointer : d.copyFramePointer.Follows c := (h.setReg .bp _).push _

theorem enter (size level : UInt16) : (d.enter size level).Follows c := by
  unfold Cpu.enter
  dsimp only
  split
  next => exact ((h.push _).setReg .bp _).setReg .sp _
  next =>
    have hframes := (h.push d.regs.bp).nat_repeat (fun _ he => he.copyFramePointer)
      (level.toNat % 32 - 1)
    exact ((hframes.push _).setReg .bp _).setReg .sp _

theorem leave : d.leave.Follows c := (h.setReg .sp _).popReg .bp

theorem release (operands : List Operand) : (d.release operands).Follows c := by
  cases operands with
  | nil => exact h
  | cons o _ => exact h.setReg .sp _

theorem ret (operands : List Operand) : (d.ret operands).Follows c :=
  (h.drop.setIp _).release operands

theorem retFar (operands : List Operand) : (d.retFar operands).Follows c :=
  ((h.drop.setIp _).drop.setSeg .cs _).release operands

theorem iret : d.iret.Follows c :=
  ((h.drop.setIp _).drop.setSeg .cs _).drop.setFlags fun hd => hd.setWord _

theorem hostReturn : d.hostReturn.Follows c := h.iret.setFlags fun hd => hd.mergeStatus _

theorem pushFrame : d.pushFrame.Follows c :=
  ((((h.withHalted false).push _).setFlags fun hd =>
    (hd.set .trap _).set .interrupt _).push _).push _

end Stack

theorem lookUp (s : SegReg) : (d.lookUp s).Follows c := h.setReg8 .al _

theorem writeElement (segment offset : UInt16) (w : Width) (v : UInt16) :
    (d.writeElement segment offset w v).Follows c := by
  cases w
  · exact ⟨h.services, h.model, h.memory.setByte _ _ _, h.flags⟩
  · exact ⟨h.services, h.model, h.memory.setWord _ _ _, h.flags⟩

theorem portIn (port : UInt16) (w : Width) : (d.portIn port w).2.Follows c := by
  cases w
  · exact ⟨h.services, h.model, h.memory.portIn port, h.flags⟩
  · exact ⟨h.services, h.model, h.memory.portInWord port, h.flags⟩

theorem portOut (port : UInt16) (w : Width) (v : UInt16) : (d.portOut port w v).Follows c := by
  cases w
  · exact ⟨h.services, h.model, h.memory.portOut port _, h.flags⟩
  · exact ⟨h.services, h.model, h.memory.portOutWord port v, h.flags⟩

section Strings

variable (segment : UInt16) (w : Width)

theorem single (op : StringOp) : (op.single segment w d).Follows c := by
  cases op with
  | movs => exact ((h.writeElement _ _ w _).advance .si w 1).advance .di w 1
  | cmps => exact ((h.setFlags fun hd => hd.subBorrow w _ _ _).advance .si w 1).advance .di w 1
  | stos => exact (h.writeElement _ _ w _).advance .di w 1
  | lods => exact (h.setAccumulator w _).advance .si w 1
  | scas => exact (h.setFlags fun hd => hd.subBorrow w _ _ _).advance .di w 1
  | ins => exact ((h.portIn _ w).writeElement _ _ w _).advance .di w 1
  | outs => exact (h.portOut _ w _).advance .si w 1

theorem movsMass (count : Nat) : (d.movsMass segment w count).Follows c := by
  unfold Cpu.movsMass
  dsimp only
  split
  next =>
    have hcopy := h.withMemory (h.memory.copy segment d.regs.si d.regs.es d.regs.di
      (count * w.bytes) d.direction)
    exact (hcopy.advance .si w count).advance .di w count
  next => exact h.nat_repeat (fun _ he => he.single segment w .movs) count

theorem stosMass (count : Nat) : (d.stosMass w count).Follows c := by
  cases w with
  | byte =>
    exact (h.withMemory (h.memory.fill d.regs.es _ count (d.regs.get8 .al))).advance .di .byte count
  | word => exact h.nat_repeat (fun _ he => he.single 0 .word .stos) count

theorem lodsMass (count : Nat) : (d.lodsMass segment w count).Follows c := by
  unfold Cpu.lodsMass
  split
  next => exact h
  next => exact (h.advance .si w (count - 1)).single segment w .lods

theorem mass (op : StringOp) (count : Nat) (how : Repeat) :
    (op.mass segment w count how d).2.Follows c := by
  cases op with
  | movs => exact h.movsMass segment w count
  | stos => exact h.stosMass w count
  | lods => exact h.lodsMass segment w count
  | cmps => exact h.compareMass (fun _ he => he.single segment w .cmps) how count 0
  | scas => exact h.compareMass (fun _ he => he.single segment w .scas) how count 0
  | ins => exact h.nat_repeat (fun _ he => he.single segment w .ins) count
  | outs => exact h.nat_repeat (fun _ he => he.single segment w .outs) count

theorem repeated (op : StringOp) (mnemonic : String) (how : Repeat) :
    (op.repeated mnemonic segment w how d).Follows c := by
  unfold StringOp.repeated
  dsimp only
  split
  next => exact h
  next => exact ((h.note .cpu .trace _).mass segment w op _ how).setReg .cx _

end Strings
end Follows

end Cpu
end RealMode
