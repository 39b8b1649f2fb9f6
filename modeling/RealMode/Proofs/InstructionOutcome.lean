import RealMode.Proofs.FailedService
import RealMode.Proofs.InstructionReach
import RealMode.Proofs.OperandShape

/-! # What comes of an instruction -/
namespace RealMode

/-- The operations, by what they work on. Those of the last family may raise an interrupt. -/
inductive Family where
  | arithmetic
  | accumulator
  | transfer
  | control
  | processor
  | interrupting
  deriving DecidableEq

def Op.family : Op → Family
  | alu _ | test | inc | dec | neg | not | mul | imul | imul3 | shift _ => .arithmetic
  | daa | das | aaa | aas | aad | cbw | cwd | lahf | sahf | salc | xlat => .accumulator
  | xchg | mov | lea | lds | les | push | pop | pusha | popa | pushf | popf | enter | leave
  | input | output => .transfer
  | jcc _ | jmp | jmpFar | call | callFar | ret | retFar | loop | loope | loopne | jcxz
  | iret => .control
  | string _ _ | clc | stc | cmc | cld | std | cli | sti | hlt | wait | nop | esc _ => .processor
  | div | idiv | aam | int | int3 | into | bound | db | dw => .interrupting

variable {M H : Type} [Bus M]

namespace Instruction

def OutOfBounds (c : Cpu M H) (index : Operand) (bounds : MemoryRef) : Prop :=
  Width.word.signed (c.value index) <
      Width.word.signed (Bus.getWord c.memory bounds.segment bounds.offset) ∨
    Width.word.signed (Bus.getWord c.memory bounds.segment (bounds.offset + 2)) <
      Width.word.signed (c.value index)

instance (c : Cpu M H) (index : Operand) (bounds : MemoryRef) :
    Decidable (OutOfBounds c index bounds) :=
  inferInstanceAs (Decidable (_ ∨ _))

/-- The interrupt that an instruction raises, if it does. -/
def raises? (i : Instruction) (c : Cpu M H) : Option UInt8 :=
  match i.op, i.operands with
  | .div, src :: _ =>
    if (c.divide? src.width (c.value src)).isNone then some divideError else none
  | .idiv, src :: _ =>
    if (c.divideSigned? src.width (c.value src)).isNone then some divideError else none
  | .aam, base :: _ => if lowByte (c.value base) = 0 then some divideError else none
  | .int, vector :: _ => some (lowByte (c.value vector))
  | .int3, _ => some breakpoint
  | .into, _ => if c.flags.get .overflow then some overflowTrap else none
  | .bound, index :: .mem m _ :: _ => if OutOfBounds c index m then some boundFault else none
  | .db, _ | .dw, _ => some invalidOpcode
  | _, _ => none

end Instruction

namespace Cpu

/-- The action succeeds and stays within the reach of instructions. -/
def Completes {α : Type} (x : Exec M H α) (c : Cpu M H) : Prop :=
  ∃ a d, x c = .ok a d ∧ d.Follows c

namespace Completes

variable {α β : Type} {c d : Cpu M H}

theorem pure (a : α) : Completes (Pure.pure a : Exec M H α) c := ⟨a, c, rfl, .refl c⟩

theorem bind {x : Exec M H α} {f : α → Exec M H β} (hx : Completes x c)
    (hf : ∀ a d, Completes (f a) d) : Completes (x >>= f) c := by
  obtain ⟨a, d, hd, hdc⟩ := hx
  obtain ⟨b, e, he, hed⟩ := hf a d
  exact ⟨b, e, (bind_of_ok hd).trans he, hed.trans hdc⟩

theorem modify {f : Cpu M H → Cpu M H} (h : (f c).Follows c) :
    Completes (modify f : Exec M H PUnit) c := ⟨_, _, rfl, h⟩

theorem modifyGet {f : Cpu M H → α × Cpu M H} (h : (f c).2.Follows c) :
    Completes (modifyGet f : Exec M H α) c := ⟨_, _, rfl, h⟩

theorem get_bind {f : Cpu M H → Exec M H β} (hf : Completes (f c) c) :
    Completes (get >>= f) c := hf

theorem set_bind {x : Exec M H β} (h : d.Follows c) (hx : Completes x d) :
    Completes (set d >>= fun _ => x) c := by
  obtain ⟨a, e, he, hed⟩ := hx
  exact ⟨a, e, he, hed.trans h⟩

theorem ite {p : Prop} [Decidable p] {x y : Exec M H α} (hx : Completes x c)
    (hy : Completes y c) : Completes (if p then x else y) c := by
  by_cases hp : p
  · rwa [if_pos hp]
  · rwa [if_neg hp]

theorem store {o : Operand} (h : Use.write.admits o) (v : UInt16) :
    Completes (Cpu.store o v : Exec M H Unit) c := by
  have same := Follows.refl c
  cases o with
  | reg8 r => exact modify (same.setReg8 r _)
  | reg16 r => exact modify (same.setReg r v)
  | seg s => exact modify (same.setSeg s v)
  | mem m w => exact modify (same.writeElement m.segment m.offset w v)
  | imm | near | far => exact Bool.noConfusion h

section Operands

variable {i : Instruction} (h : i.Fits)
include h

theorem arg {n : Nat} {u : Use} {f : Operand → Exec M H β} (hu : i.op.uses[n]? = some u)
    (hf : ∀ o, u.admits o → Completes (f o) c) : Completes (i.arg n >>= f) c := by
  obtain ⟨o, ho, hadmits⟩ := Use.exists_of_fit h hu
  simp only [Instruction.arg, ho]
  exact hf o hadmits

theorem branch (hu : i.op.uses[0]? = some .read) : Completes (i.branch : Exec M H Unit) c :=
  arg h hu fun _ _ => modify ((Follows.refl c).setIp _)

theorem farTarget_bind (hu : i.op.uses[0]? = some .follow) {f : FarPointer → Exec M H β}
    (hf : ∀ p d, Completes (f p) d) : Completes (i.farTarget >>= f) c := by
  apply bind _ hf
  apply arg h hu
  intro o ho
  apply get_bind
  cases o with
  | mem m w => exact pure _
  | far segment offset => exact pure _
  | _ => exact Bool.noConfusion ho

theorem update (hu : i.op.uses[0]? = some .write) {f : Flags → Width → UInt16 → UInt16 × Flags}
    (hf : ∀ g w v, g.WellFormed → (f g w v).2.WellFormed) :
    Completes (i.update f : Exec M H Unit) c :=
  arg h hu fun _ hdst =>
    bind (modifyGet ((Follows.refl c).setFlags (hf _ _ _))) fun r _ => store hdst r

theorem alu {op : AluOp} (hop : i.op = .alu op) : Completes (i.alu op : Exec M H Unit) c := by
  have same (w : Width) (a b : UInt16) :=
    (Follows.refl c).setFlags fun hc => hc.alu op w a b
  by_cases hcmp : op = .cmp
  · subst hcmp
    refine arg h (u := .read) (by rw [hop]; rfl) fun dst _ => ?_
    refine arg h (u := .read) (by rw [hop]; rfl) fun src _ => ?_
    exact bind (modifyGet (same _ _ _)) fun _ _ => pure _
  · have hu : i.op.uses = [.write, .read] := by
      rw [hop]
      cases op with
      | cmp => exact absurd rfl hcmp
      | _ => rfl
    refine arg h (u := .write) (by rw [hu]; rfl) fun dst hdst => ?_
    refine arg h (u := .read) (by rw [hu]; rfl) fun src _ => ?_
    exact bind (modifyGet (same _ _ _)) fun r _ => ite (store hdst r) (pure _)

theorem shift (op : ShiftOp) (hdst : i.op.uses[0]? = some .write)
    (hcount : i.op.uses[1]? = some .read) : Completes (i.shift op : Exec M H Unit) c := by
  apply arg h hdst
  intro dst hd
  apply arg h hcount
  intro count _
  apply get_bind
  dsimp only
  generalize (if c.model.extended then (lowByte (c.value count)).toNat % 32
    else (lowByte (c.value count)).toNat) = n
  apply ite
  · exact set_bind ((Follows.refl c).setFlags fun hc => hc.shift op _ _ n) (store hd _)
  · exact pure _

theorem loadFar (s : SegReg) (hdst : i.op.uses[0]? = some .write)
    (hsrc : i.op.uses[1]? = some .address) : Completes (i.loadFar s : Exec M H Unit) c := by
  apply arg h hdst
  intro dst hd
  apply arg h hsrc
  intro src hs
  apply get_bind
  cases src with
  | mem m w =>
    exact bind (store hd _) fun _ d => modify (f := (·.setSeg s _)) ((Follows.refl d).setSeg s _)
  | _ => exact Bool.noConfusion hs

theorem loop (hu : i.op.uses[0]? = some .read) (goesOn : Flags → Bool) :
    Completes (i.loop goesOn : Exec M H Unit) c :=
  bind (modifyGet ((Follows.refl c).setReg .cx _)) fun _ _ => ite (branch h hu) (pure _)

end Operands
end Completes

variable [HostService M H]

/-- How an instruction ends: with an interrupt that it raises, or done. -/
inductive Ends (x : Exec M H Unit) (c : Cpu M H) : Option UInt8 → Prop where
  | raised {vector : UInt8} (h : x c = interrupt vector c) : Ends x c (some vector)
  | completed (h : Completes x c) : Ends x c none

namespace Ends

variable {c : Cpu M H}

theorem arg {i : Instruction} {n : Nat} {o : Operand} {f : Operand → Exec M H Unit}
    {r : Option UInt8} (ho : i.operands[n]? = some o) (hf : Ends (f o) c r) :
    Ends (i.arg n >>= f) c r := by
  simp only [Instruction.arg, ho]
  exact hf

theorem get_bind {f : Cpu M H → Exec M H Unit} {r : Option UInt8} (hf : Ends (f c) c r) :
    Ends (get >>= f) c r := by
  cases hf with
  | raised h => exact .raised h
  | completed h => exact .completed h

theorem orDivideError {f : Cpu M H → Option (Cpu M H)} {p : Prop} [Decidable p]
    (hnone : f c = none ↔ p) (h : ∀ d, f c = some d → d.Follows c) :
    Ends (Instruction.orDivideError f) c (if p then some divideError else none) := by
  apply get_bind
  cases hf : f c with
  | none =>
    rw [if_pos (hnone.mp hf)]
    exact .raised rfl
  | some d =>
    have hp : ¬ p := fun hp => nomatch hf.symm.trans (hnone.mpr hp)
    rw [if_neg hp]
    exact .completed ⟨(), d, rfl, h d hf⟩

theorem ite {p : Prop} [Decidable p] (vector : UInt8) :
    Ends (if p then interrupt vector else Pure.pure ()) c (if p then some vector else none) := by
  by_cases hp : p
  · rw [if_pos hp, if_pos hp]
    exact .raised rfl
  · rw [if_neg hp, if_neg hp]
    exact .completed (.pure ())

end Ends

namespace Completes

section Families

variable {i : Instruction} (h : i.Fits) {c : Cpu M H}
include h

theorem execute_arithmetic (hf : i.op.family = .arithmetic) : Completes i.execute c := by
  obtain ⟨op, operands, repeated, lock, override, length⟩ := i
  have same := Follows.refl c
  unfold Instruction.execute
  cases op <;> cases hf <;> dsimp only
  case alu op => exact .alu h rfl
  case test =>
    exact .arg h rfl fun _ _ => .arg h rfl fun _ _ =>
      .modify (same.setFlags fun hc => hc.bitwise _ _)
  case inc => exact .update h rfl fun _ w v hg => hg.inc w v
  case dec => exact .update h rfl fun _ w v hg => hg.dec w v
  case neg => exact .update h rfl fun _ w v hg => hg.subBorrow w 0 v false
  case not => exact .update h rfl fun _ _ _ hg => hg
  case mul => exact .arg h rfl fun _ _ => .modify (same.multiply _ _)
  case imul => exact .arg h rfl fun _ _ => .modify (same.multiplySigned _ _)
  case imul3 =>
    exact .arg h rfl fun _ hdst => .arg h rfl fun _ _ => .arg h rfl fun _ _ =>
      .bind (.modifyGet (same.setCarryOverflow _)) fun _ _ => .store hdst _
  case shift op => exact .shift h op rfl rfl

theorem execute_accumulator (hf : i.op.family = .accumulator) : Completes i.execute c := by
  obtain ⟨op, operands, repeated, lock, override, length⟩ := i
  have same := Follows.refl c
  unfold Instruction.execute
  cases op <;> cases hf <;> dsimp only
  case daa | das => exact .modify (same.decimalAdjust _)
  case aaa | aas => exact .modify (same.asciiAdjust _ _)
  case cbw | cwd => exact .modify (same.setReg _ _)
  case lahf | salc => exact .modify (same.setReg8 _ _)
  case xlat => exact .modify (same.lookUp _)
  case sahf => exact .modify (same.setFlags fun hc => hc.setLowByte _)
  case aad => exact .arg h rfl fun _ _ => .modify (same.joinDigits _)

theorem execute_transfer (hf : i.op.family = .transfer) : Completes i.execute c := by
  obtain ⟨op, operands, repeated, lock, override, length⟩ := i
  have same := Follows.refl c
  unfold Instruction.execute
  cases op <;> cases hf <;> dsimp only
  case xchg =>
    exact .arg h rfl fun _ ha => .arg h rfl fun _ hb =>
      .get_bind (.bind (.store ha _) fun _ _ => .store hb _)
  case mov => exact .arg h rfl fun _ hdst => .arg h rfl fun _ _ => .get_bind (.store hdst _)
  case lea =>
    refine .arg h rfl fun _ hdst => .arg h rfl fun src hsrc => ?_
    cases src with
    | mem m w => exact .store hdst m.offset
    | _ => exact Bool.noConfusion hsrc
  case lds | les => exact .loadFar h _ rfl rfl
  case push => exact .arg h rfl fun _ _ => .modify (same.push _)
  case pop =>
    exact .arg h rfl fun _ hdst => .bind (.modifyGet same.drop) fun _ _ => .store hdst _
  case pusha => exact .modify same.pushAll
  case popa => exact .modify same.popAll
  case pushf => exact .modify (same.push _)
  case popf =>
    exact .bind (.modifyGet same.drop) fun _ d =>
      .modify ((Follows.refl d).setFlags fun hc => hc.setWord _)
  case leave => exact .modify same.leave
  case enter =>
    refine .arg h rfl fun _ _ => .get_bind (.arg h rfl fun _ _ => ?_)
    exact .modify (same.enter _ _)
  case input =>
    exact .arg h rfl fun _ hdst => .arg h rfl fun _ _ =>
      .bind (.modifyGet (same.portIn _ _)) fun _ _ => .store hdst _
  case output => exact .arg h rfl fun _ _ => .arg h rfl fun _ _ => .modify (same.portOut _ _ _)

theorem execute_control (hf : i.op.family = .control) : Completes i.execute c := by
  obtain ⟨op, operands, repeated, lock, override, length⟩ := i
  have same := Follows.refl c
  unfold Instruction.execute
  cases op <;> cases hf <;> dsimp only
  case jcc cond => exact .get_bind (.ite (.branch h rfl) (.pure _))
  case jmp => exact .branch h rfl
  case jmpFar => exact .farTarget_bind h rfl fun _ d => .modify ((Follows.refl d).jump _)
  case call => exact .arg h rfl fun _ _ => .modify ((same.push _).setIp _)
  case callFar =>
    exact .farTarget_bind h rfl fun _ d => .modify ((((Follows.refl d).push _).push _).jump _)
  case ret => exact .modify (same.ret operands)
  case retFar => exact .modify (same.retFar operands)
  case loop | loope | loopne => exact .loop h rfl _
  case jcxz => exact .get_bind (.ite (.branch h rfl) (.pure _))
  case iret => exact .modify same.iret

omit h in
theorem execute_processor (hf : i.op.family = .processor) : Completes i.execute c := by
  obtain ⟨op, operands, repeated, lock, override, length⟩ := i
  have same := Follows.refl c
  unfold Instruction.execute
  cases op <;> cases hf <;> dsimp only
  case clc | stc | cmc | cld | std | cli | sti => exact .modify (same.setFlag _ _)
  case hlt => exact .modify (same.withHalted true)
  case string op w =>
    refine .modify ?_
    cases repeated with
    | none => exact same.single _ w op
    | some how => exact same.repeated _ w op _ how
  case wait | nop | esc => exact .pure _

end Families
end Completes

omit [HostService M H] in
theorem raises?_eq_none {i : Instruction} (hf : i.op.family ≠ .interrupting) (c : Cpu M H) :
    i.raises? c = none := by
  obtain ⟨op, operands, repeated, lock, override, length⟩ := i
  cases op <;> first | rfl | exact absurd rfl hf

theorem Ends.execute_interrupting {i : Instruction} (h : i.Fits)
    (hf : i.op.family = .interrupting) (c : Cpu M H) : Ends i.execute c (i.raises? c) := by
  obtain ⟨op, operands, repeated, lock, override, length⟩ := i
  have same := Follows.refl c
  have raised (vector : UInt8) : Ends (interrupt vector) c (some vector) := .raised rfl
  unfold Instruction.execute
  cases op <;> cases hf <;> dsimp only
  case div =>
    obtain ⟨src, os, rfl, -⟩ := Use.exists_cons_of_fit h
    exact .arg rfl (.orDivideError Option.isNone_iff_eq_none.symm fun _ hd => same.divide? hd)
  case idiv =>
    obtain ⟨src, os, rfl, -⟩ := Use.exists_cons_of_fit h
    exact .arg rfl (.orDivideError Option.isNone_iff_eq_none.symm fun _ hd => same.divideSigned? hd)
  case aam =>
    obtain ⟨base, os, rfl, -⟩ := Use.exists_cons_of_fit h
    refine .arg rfl (.orDivideError (ite_eq_left_iff.trans (by simp)) fun d hd => ?_)
    simp only [Option.ite_none_left_eq_some, Option.some.injEq] at hd
    obtain ⟨-, rfl⟩ := hd
    exact same.splitDigits _
  case int =>
    obtain ⟨o, os, rfl, -⟩ := Use.exists_cons_of_fit h
    exact .arg rfl (.get_bind (raised _))
  case int3 | db | dw => exact raised _
  case into => exact .get_bind (.ite _)
  case bound =>
    obtain ⟨index, os, rfl, -, hos⟩ := Use.exists_cons_of_fit h
    obtain ⟨bounds, os, rfl, hbounds, -⟩ := Use.exists_cons_of_fit hos
    cases bounds with
    | mem m w => exact .arg rfl (.arg rfl (.get_bind (.ite _)))
    | _ => exact Bool.noConfusion hbounds

/-- What fits its operation ends in one of the two ways, as its operands and the state have it. -/
theorem ends_execute {i : Instruction} (h : i.Fits) (c : Cpu M H) :
    Ends i.execute c (i.raises? c) := by
  have completed (hf : i.op.family ≠ .interrupting) (hx : Completes i.execute c) :
      Ends i.execute c (i.raises? c) := raises?_eq_none hf c ▸ .completed hx
  cases hf : i.op.family with
  | interrupting => exact .execute_interrupting h hf c
  | arithmetic => exact completed (by simp [hf]) (.execute_arithmetic h hf)
  | accumulator => exact completed (by simp [hf]) (.execute_accumulator h hf)
  | transfer => exact completed (by simp [hf]) (.execute_transfer h hf)
  | control => exact completed (by simp [hf]) (.execute_control h hf)
  | processor => exact completed (by simp [hf]) (.execute_processor hf)

def raised? (c : Cpu M H) : Option UInt8 :=
  if c.halted then none else c.decoded.instruction.raises? c.atInstruction

omit [HostService M H] in
theorem halted_of_raised {c : Cpu M H} {vector : UInt8} (h : c.raised? = some vector) :
    c.halted = false := by
  rw [raised?, Option.ite_none_left_eq_some, Bool.not_eq_true] at h
  exact h.1

theorem ends_atInstruction {c : Cpu M H} (h : c.halted = false) :
    Ends c.decoded.instruction.execute c.atInstruction c.raised? := by
  rw [raised?, h, if_neg Bool.false_ne_true]
  exact ends_execute (fits_decode _) c.atInstruction

theorem step_of_raised {c : Cpu M H} {vector : UInt8} (h : c.raised? = some vector) :
    step c = interrupt vector c.atInstruction := by
  have hrunning := halted_of_raised h
  have he := ends_atInstruction hrunning
  rw [h] at he
  cases he with
  | raised hr => rw [step_of_running hrunning, hr]

theorem step_of_quiet {c : Cpu M H} (h : c.raised? = none) :
    ∃ d, step c = .ok () d ∧ d.Follows c := by
  cases hhalted : c.halted with
  | true => exact ⟨c, step_of_halted hhalted, .refl c⟩
  | false =>
    have he := ends_atInstruction hhalted
    rw [h] at he
    cases he with
    | completed hr =>
      obtain ⟨_, d, hd, hf⟩ := hr
      exact ⟨d, (step_of_running hhalted).trans hd, hf.trans (Follows.refl c).atInstruction⟩

end Cpu
end RealMode
