import RealMode.Proofs.RefittedState

/-! # Execution on a refitted processor

Only a shift asks for the model, and not for counts below 32.
-/
namespace RealMode

namespace Cpu

variable {M N H α : Type} [Bus M] [Bus N]

def refitted (φ : Refit M N) :
    EStateM.Result CpuError (Cpu M H) α → EStateM.Result CpuError (Cpu N H) α
  | .ok a c => .ok a (c.refit φ)
  | .error e c => .error e (c.refit φ)

theorem unserved_refit {φ : Refit M N} {c : Cpu M H} : (c.refit φ).Unserved ↔ c.Unserved := by
  unfold Unserved
  rw [services_refit]

end Cpu

open Cpu

namespace Instruction

/-- What a shift does once its count is known. -/
def shiftBy {M H : Type} [Bus M] (op : ShiftOp) (dst : Operand) (n : Nat) : Exec M H Unit := do
  if n ≠ 0 then
    let r ← modifyGet fun c =>
      let (r, f) := op.apply c.flags dst.width (c.value dst) n
      (r, c.setFlags f)
    Cpu.store dst r

end Instruction

/-- An action that registers no service, and one that does the same on the refitted processor. -/
structure Parallel {M N H α : Type} [Bus M] [Bus N] (φ : Refit M N) (x : Exec M H α)
    (y : Exec N H α) : Prop where
  eq_refitted : ∀ {c : Cpu M H}, c.Unserved → y (c.refit φ) = refitted φ (x c)
  unserved : ∀ {c d : Cpu M H} {a : α}, c.Unserved → x c = .ok a d → d.Unserved

namespace Parallel

variable {M N H α β : Type} [Bus M] [Bus N] {φ : Refit M N}

theorem pure (a : α) : Parallel φ (Pure.pure a : Exec M H α) (Pure.pure a) := by
  constructor
  · intro c _
    rfl
  · intro c d b hc h
    cases h
    exact hc

theorem throw (e : CpuError) :
    Parallel φ (MonadExcept.throw e : Exec M H α) (MonadExcept.throw e) :=
  ⟨fun _ => rfl, fun _ h => nomatch h⟩

theorem bind {x : Exec M H α} {y : Exec N H α} {f : α → Exec M H β} {g : α → Exec N H β}
    (hx : Parallel φ x y) (hf : ∀ a, Parallel φ (f a) (g a)) : Parallel φ (x >>= f) (y >>= g) := by
  constructor
  · intro c hc
    show EStateM.bind y g _ = refitted φ (EStateM.bind x f c)
    unfold EStateM.bind
    rw [hx.eq_refitted hc]
    cases hr : x c with
    | error e d => rfl
    | ok a d => exact (hf a).eq_refitted (hx.unserved hc hr)
  · intro c d b hc h
    have hbind : EStateM.bind x f c = .ok b d := h
    unfold EStateM.bind at hbind
    cases hr : x c with
    | error e k =>
      rw [hr] at hbind
      cases hbind
    | ok a k =>
      rw [hr] at hbind
      exact (hf a).unserved (hx.unserved hc hr) hbind

theorem get_bind {f : Cpu M H → Exec M H β} {g : Cpu N H → Exec N H β}
    (hf : ∀ c, Parallel φ (f c) (g (c.refit φ))) : Parallel φ (get >>= f) (get >>= g) := by
  constructor
  · intro c hc
    exact (hf c).eq_refitted hc
  · intro c d b hc h
    exact (hf c).unserved hc h

theorem ite {p : Prop} [Decidable p] {x₁ x₂ : Exec M H α} {y₁ y₂ : Exec N H α}
    (h₁ : Parallel φ x₁ y₁) (h₂ : Parallel φ x₂ y₂) :
    Parallel φ (if p then x₁ else x₂) (if p then y₁ else y₂) := by
  split
  next => exact h₁
  next => exact h₂

theorem arg_bind {i : Instruction} {n : Nat} {f : Operand → Exec M H β} {g : Operand → Exec N H β}
    (hf : ∀ o, Parallel φ (f o) (g o)) : Parallel φ (i.arg n >>= f) (i.arg n >>= g) := by
  refine bind ?_ hf
  unfold Instruction.arg
  split
  next => exact pure _
  next => exact throw _

omit [Bus M] in
theorem modifyGet_apply (f : Cpu M H → α × Cpu M H) (c : Cpu M H) :
    (MonadState.modifyGet f : Exec M H α) c = .ok (f c).1 (f c).2 := rfl

theorem modifyGet {f : Cpu M H → α × Cpu M H} {g : Cpu N H → α × Cpu N H}
    (hfollows : ∀ c, (f c).2.Follows c)
    (hf : ∀ c, g (c.refit φ) = ((f c).1, (f c).2.refit φ)) :
    Parallel φ (modifyGet f : Exec M H α) (modifyGet g) := by
  constructor
  · intro c _
    rw [modifyGet_apply, modifyGet_apply, hf]
    rfl
  · intro c d a hc h
    rw [modifyGet_apply] at h
    injection h with _ hd
    exact hd ▸ hc.follows (hfollows c)

theorem modify {f : Cpu M H → Cpu M H} {g : Cpu N H → Cpu N H} (hfollows : ∀ c, (f c).Follows c)
    (hf : ∀ c, g (c.refit φ) = (f c).refit φ) :
    Parallel φ (modify f : Exec M H PUnit) (modify g) :=
  modifyGet (f := fun c : Cpu M H => (PUnit.unit, f c)) (g := fun c => (PUnit.unit, g c)) hfollows
    fun c => by rw [hf]

theorem store (o : Operand) (v : UInt16) :
    Parallel φ (Cpu.store o v : Exec M H Unit) (Cpu.store o v) := by
  have same := fun c : Cpu M H => Follows.refl c
  cases o with
  | reg8 r => exact modify (fun c => (same c).setReg8 r _) fun c => c.setReg8_refit φ r _
  | reg16 r => exact modify (fun c => (same c).setReg r v) fun c => c.setReg_refit φ r v
  | seg s => exact modify (fun c => (same c).setSeg s v) fun c => c.setSeg_refit φ s v
  | mem m w =>
    exact modify (fun c => (same c).writeElement m.segment m.offset w v) fun c =>
      c.writeElement_refit φ m.segment m.offset w v
  | imm | near | far => exact throw _

section Services

variable [HostService M H] [HostService N H]

theorem interrupt (vector : UInt8) :
    Parallel φ (Cpu.interrupt vector : Exec M H Unit) (Cpu.interrupt vector) := by
  constructor
  · intro c hc
    rw [interrupt_of_no_service (hc vector),
      interrupt_of_no_service (unserved_refit.mpr hc vector), atVector_refit]
    rfl
  · intro c d _ hc h
    rw [interrupt_of_no_service (hc vector)] at h
    cases h
    exact hc.follows ((Follows.refl c).atVector vector)

omit [Bus N] [HostService N H] in
theorem orDivideError_apply (f : Cpu M H → Option (Cpu M H)) (c : Cpu M H) :
    (Instruction.orDivideError f : Exec M H Unit) c =
      match f c with
      | some d => .ok () d
      | none => Cpu.interrupt divideError c := by
  show (match f c with | some d => set d | none => Cpu.interrupt divideError : Exec M H Unit) c = _
  cases f c <;> rfl

theorem orDivideError {f : Cpu M H → Option (Cpu M H)} {g : Cpu N H → Option (Cpu N H)}
    (hfollows : ∀ c d, f c = some d → d.Follows c)
    (hf : ∀ c, g (c.refit φ) = (f c).map (·.refit φ)) :
    Parallel φ (Instruction.orDivideError f : Exec M H Unit) (Instruction.orDivideError g) := by
  have hdivide : Parallel φ (Cpu.interrupt divideError : Exec M H Unit)
      (Cpu.interrupt divideError) := interrupt divideError
  constructor
  · intro c hc
    rw [orDivideError_apply, orDivideError_apply, hf]
    cases f c with
    | none => exact hdivide.eq_refitted hc
    | some d => rfl
  · intro c d _ hc h
    rw [orDivideError_apply] at h
    cases hfc : f c with
    | none =>
      rw [hfc] at h
      exact hdivide.unserved hc h
    | some e =>
      rw [hfc] at h
      cases h
      exact hc.follows (hfollows c _ hfc)

end Services

section Actions

variable (i : Instruction)

theorem branch : Parallel φ (i.branch : Exec M H Unit) i.branch := by
  apply arg_bind
  intro o
  apply modify
  · intro c
    exact (Follows.refl c).setIp _
  · intro c
    rw [value_refit, setIp_refit]

theorem farTarget : Parallel φ (i.farTarget : Exec M H FarPointer) i.farTarget := by
  apply arg_bind
  intro o
  apply get_bind
  intro c
  rw [far?_refit]
  split
  next => exact pure _
  next => exact throw _

theorem alu (op : AluOp) : Parallel φ (i.alu op : Exec M H Unit) (i.alu op) := by
  apply arg_bind
  intro dst
  apply arg_bind
  intro src
  apply bind
  · apply modifyGet
    · intro c
      exact (Follows.refl c).setFlags fun hc => hc.alu op _ _ _
    · intro c
      simp only [flags_refit, value_refit, setFlags_refit]
  · intro r
    exact ite (store dst r) (pure _)

theorem update {f : Flags → Width → UInt16 → UInt16 × Flags}
    (hf : ∀ g w v, g.WellFormed → (f g w v).2.WellFormed) :
    Parallel φ (i.update f : Exec M H Unit) (i.update f) := by
  apply arg_bind
  intro dst
  apply bind
  · apply modifyGet
    · intro c
      exact (Follows.refl c).setFlags (hf _ _ _)
    · intro c
      simp only [flags_refit, value_refit, setFlags_refit]
  · intro r
    exact store dst r

theorem loadFar (s : SegReg) : Parallel φ (i.loadFar s : Exec M H Unit) (i.loadFar s) := by
  apply arg_bind
  intro dst
  apply arg_bind
  intro src
  apply get_bind
  intro c
  rw [far?_refit]
  split
  next p _ _ =>
    apply bind (store dst p.offset)
    intro _
    exact modify (fun c => (Follows.refl c).setSeg s _) fun c => c.setSeg_refit φ s _
  next => exact throw _

theorem loop (goesOn : Flags → Bool) :
    Parallel φ (i.loop goesOn : Exec M H Unit) (i.loop goesOn) := by
  apply bind
  · apply modifyGet
    · intro c
      exact (Follows.refl c).setReg .cx _
    · intro c
      rw [flags_refit, countDown_refit]
  · intro taken
    exact ite (branch i) (pure _)

theorem shiftBy (op : ShiftOp) (dst : Operand) (n : Nat) :
    Parallel φ (Instruction.shiftBy op dst n : Exec M H Unit) (Instruction.shiftBy op dst n) := by
  apply ite
  · apply bind
    · apply modifyGet
      · intro c
        exact (Follows.refl c).setFlags fun hc => hc.shift op _ _ n
      · intro c
        simp only [flags_refit, value_refit, setFlags_refit]
    · intro r
      exact store dst r
  · exact pure _

end Actions

variable [HostService M H] [HostService N H]

section Families

variable {i : Instruction}

theorem execute_arithmetic (hf : i.op.family = .arithmetic)
    (hshift : ∀ op, i.op ≠ .shift op) :
    Parallel φ (i.execute : Exec M H Unit) i.execute := by
  obtain ⟨op, operands, repeated, lock, override, length⟩ := i
  have same := fun c : Cpu M H => Follows.refl c
  unfold Instruction.execute
  cases op <;> cases hf <;> dsimp only
  case shift op => exact absurd rfl (hshift op)
  case alu op => exact alu _ op
  case test =>
    exact arg_bind fun _ => arg_bind fun _ =>
      modify (fun c => (same c).setFlags fun hc => hc.bitwise _ _) fun c => by
        simp only [flags_refit, value_refit, setFlags_refit]
  case inc => exact update _ fun _ w v hg => hg.inc w v
  case dec => exact update _ fun _ w v hg => hg.dec w v
  case neg => exact update _ fun _ w v hg => hg.subBorrow w 0 v false
  case not => exact update _ fun _ _ _ hg => hg
  case mul =>
    exact arg_bind fun _ => modify (fun c => (same c).multiply _ _) fun c => by
      rw [value_refit, multiply_refit]
  case imul =>
    exact arg_bind fun _ => modify (fun c => (same c).multiplySigned _ _) fun c => by
      rw [value_refit, multiplySigned_refit]
  case imul3 =>
    exact arg_bind fun dst => arg_bind fun _ => arg_bind fun _ =>
      bind (modifyGet (fun c => (same c).setCarryOverflow _) fun c => by
        simp only [value_refit, setCarryOverflow_refit]) fun r => store dst r

theorem execute_accumulator (hf : i.op.family = .accumulator) :
    Parallel φ (i.execute : Exec M H Unit) i.execute := by
  obtain ⟨op, operands, repeated, lock, override, length⟩ := i
  have same := fun c : Cpu M H => Follows.refl c
  unfold Instruction.execute
  cases op <;> cases hf <;> dsimp only
  case lahf =>
    exact modify (fun c => (same c).setReg8 _ _) fun c => by
      rw [flags_refit, setReg8_refit]
  case sahf =>
    exact modify (fun c => (same c).setFlags fun hc => hc.setLowByte _) fun c => by
      rw [flags_refit, regs_refit, setFlags_refit]
  case cbw | cwd =>
    exact modify (fun c => (same c).setReg _ _) fun c => by
      rw [regs_refit, setReg_refit]
  case xlat => exact modify (fun c => (same c).lookUp _) fun c => c.lookUp_refit φ _
  case salc =>
    exact modify (fun c => (same c).setReg8 _ _) fun c => by
      rw [flags_refit, setReg8_refit]
  case daa | das =>
    exact modify (fun c => (same c).decimalAdjust _) fun c =>
      c.decimalAdjust_refit φ _
  case aaa | aas =>
    exact modify (fun c => (same c).asciiAdjust _ _) fun c =>
      c.asciiAdjust_refit φ _ _
  case aad =>
    exact arg_bind fun _ => modify (fun c => (same c).joinDigits _) fun c => by
      rw [value_refit, joinDigits_refit]

theorem execute_transfer (hf : i.op.family = .transfer) :
    Parallel φ (i.execute : Exec M H Unit) i.execute := by
  obtain ⟨op, operands, repeated, lock, override, length⟩ := i
  have same := fun c : Cpu M H => Follows.refl c
  unfold Instruction.execute
  cases op <;> cases hf <;> dsimp only
  case xchg =>
    exact arg_bind fun a => arg_bind fun b =>
      get_bind fun c => by
        rw [value_refit, value_refit]
        exact bind (store a _) fun _ => store b _
  case mov =>
    exact arg_bind fun dst => arg_bind fun _ =>
      get_bind fun c => by
        rw [value_refit]
        exact store dst _
  case lea =>
    refine arg_bind fun dst => arg_bind fun src => ?_
    cases src with
    | mem m w => exact store dst m.offset
    | _ => exact throw _
  case lds | les => exact loadFar _ _
  case push =>
    exact arg_bind fun _ => modify (fun c => (same c).push _) fun c => by
      simp only [regs_refit, value_refit, push_refit]
  case pop =>
    exact arg_bind fun dst => bind (modifyGet (fun c => (same c).drop) fun c => by
      simp only [pop, top_refit, drop_refit]) fun v => store dst v
  case pusha => exact modify (fun c => (same c).pushAll) fun c => c.pushAll_refit φ
  case popa => exact modify (fun c => (same c).popAll) fun c => c.popAll_refit φ
  case pushf =>
    exact modify (fun c => (same c).push _) fun c => by
      rw [flags_refit, push_refit]
  case popf =>
    exact bind (modifyGet (fun c => (same c).drop) fun c => by
      simp only [pop, top_refit, drop_refit]) fun w =>
        modify (fun c => (same c).setFlags fun hc => hc.setWord w) fun c => by
          rw [flags_refit, setFlags_refit]
  case enter =>
    refine arg_bind fun size => ?_
    unfold Instruction.arg
    split
    next level _ =>
      exact modify (f := fun c : Cpu M H => c.enter (c.value size) (c.value level))
        (g := fun c : Cpu N H => c.enter (c.value size) (c.value level))
        (fun c => (same c).enter _ _) fun c => by rw [value_refit, value_refit, enter_refit]
    next =>
      constructor
      · intro c _
        rfl
      · intro c d _ _ h
        cases h
  case leave => exact modify (fun c => (same c).leave) fun c => c.leave_refit φ
  case input =>
    exact arg_bind fun dst => arg_bind fun _ =>
      bind (modifyGet (fun c => (same c).portIn _ _) fun c => by
        rw [value_refit, portIn_refit]) fun v => store dst v
  case output =>
    exact arg_bind fun _ => arg_bind fun _ =>
      modify (fun c => (same c).portOut _ _ _) fun c => by
        rw [value_refit, value_refit, portOut_refit]

theorem execute_control (hf : i.op.family = .control) :
    Parallel φ (i.execute : Exec M H Unit) i.execute := by
  obtain ⟨op, operands, repeated, lock, override, length⟩ := i
  have same := fun c : Cpu M H => Follows.refl c
  unfold Instruction.execute
  cases op <;> cases hf <;> dsimp only
  case jcc cond =>
    exact get_bind fun c => by
      rw [flags_refit]
      exact ite (branch _) (pure _)
  case jmp => exact branch _
  case jmpFar =>
    exact bind (farTarget _) fun p =>
      modify (fun c => (same c).jump p) fun c => c.jump_refit φ p
  case call =>
    exact arg_bind fun _ => modify (fun c => ((same c).push _).setIp _) fun c => by
      simp only [value_refit, regs_refit, push_refit, setIp_refit]
  case callFar =>
    exact bind (farTarget _) fun p =>
      modify (fun c => (((same c).push _).push _).jump p) fun c => by
        simp only [regs_refit, push_refit, jump_refit]
  case ret =>
    exact modify (fun c => (same c).ret operands) fun c => c.ret_refit φ operands
  case retFar =>
    exact modify (fun c => (same c).retFar operands) fun c =>
      c.retFar_refit φ operands
  case loop | loope | loopne => exact loop _ _
  case jcxz =>
    exact get_bind fun c => by
      rw [regs_refit]
      exact ite (branch _) (pure _)
  case iret => exact modify (fun c => (same c).iret) fun c => c.iret_refit φ

theorem execute_processor (hf : i.op.family = .processor) :
    Parallel φ (i.execute : Exec M H Unit) i.execute := by
  obtain ⟨op, operands, repeated, lock, override, length⟩ := i
  have same := fun c : Cpu M H => Follows.refl c
  unfold Instruction.execute
  cases op <;> cases hf <;> dsimp only
  case string op w =>
    refine modify (fun c => ?_) fun c => ?_
    · cases repeated with
      | none => exact (same c).single _ w op
      | some how => exact (same c).repeated _ w op _ how
    · dsimp only
      rw [regs_refit]
      cases repeated with
      | none => exact c.single_refit φ _ w op
      | some how => exact c.repeated_refit φ _ w op _ how
  case clc | stc | cld | std | cli | sti =>
    exact modify (fun c => (same c).setFlag _ _) fun c => c.setFlag_refit φ _ _
  case cmc =>
    exact modify (fun c => (same c).setFlag _ _) fun c => by
      rw [flags_refit, setFlag_refit]
  case hlt =>
    exact modify (fun c => (same c).withHalted true) fun c => by
      cases c
      rfl
  case wait | nop | esc => exact pure _

theorem execute_interrupting (hf : i.op.family = .interrupting) :
    Parallel φ (i.execute : Exec M H Unit) i.execute := by
  obtain ⟨op, operands, repeated, lock, override, length⟩ := i
  have same := fun c : Cpu M H => Follows.refl c
  unfold Instruction.execute
  cases op <;> cases hf <;> dsimp only
  case div =>
    exact arg_bind fun _ => orDivideError (fun c _ => (same c).divide?) fun c => by
      rw [value_refit, divide?_refit]
  case idiv =>
    exact arg_bind fun _ => orDivideError (fun c _ => (same c).divideSigned?) fun c => by
      rw [value_refit, divideSigned?_refit]
  case aam =>
    refine arg_bind fun o => orDivideError (fun c d hd => ?_) fun c => ?_
    · simp only [Option.ite_none_left_eq_some, Option.some.injEq] at hd
      obtain ⟨-, rfl⟩ := hd
      exact (same c).splitDigits _
    · simp only [value_refit, splitDigits_refit, apply_ite (Option.map _),
        Option.map_none, Option.map_some]
  case int =>
    exact arg_bind fun _ => get_bind fun c => by
      rw [value_refit]
      exact interrupt _
  case int3 | db | dw => exact interrupt _
  case into =>
    exact get_bind fun c => by
      rw [flags_refit]
      exact ite (interrupt _) (pure _)
  case bound =>
    refine arg_bind fun o => arg_bind fun bounds => get_bind fun c => ?_
    cases bounds with
    | mem m w =>
      simp only [value_refit, memory_refit, φ.bus.getWord_map]
      exact ite (interrupt boundFault) (pure _)
    | _ => exact throw _

/-- Only a shift asks for the model. -/
theorem execute (hshift : ∀ op, i.op ≠ .shift op) :
    Parallel φ (i.execute : Exec M H Unit) i.execute := by
  cases hf : i.op.family with
  | arithmetic => exact execute_arithmetic hf hshift
  | accumulator => exact execute_accumulator hf
  | transfer => exact execute_transfer hf
  | control => exact execute_control hf
  | processor => exact execute_processor hf
  | interrupting => exact execute_interrupting hf

end Families
end Parallel

namespace Instruction

variable {M N H : Type} [Bus M] [Bus N] {φ : Refit M N}

theorem shift_apply {i : Instruction} {dst count : Operand} (hdst : i.operands[0]? = some dst)
    (hcount : i.operands[1]? = some count) (op : ShiftOp) (c : Cpu M H) :
    i.shift op c = shiftBy op dst (if c.model.extended then (lowByte (c.value count)).toNat % 32
      else (lowByte (c.value count)).toNat) c := by
  simp only [shift, arg, hdst, hcount, pure_bind]
  show (if _ then _ else _ : Exec M H Unit) c = _
  generalize (if c.model.extended then (lowByte (c.value count)).toNat % 32
    else (lowByte (c.value count)).toNat) = n
  unfold shiftBy
  split
  next => rfl
  next => rfl

/-- A shift whose count is below 32 does not ask for the model either. -/
theorem execute_refit [HostService M H] [HostService N H] {i : Instruction} {c : Cpu M H}
    (hc : c.Unserved) (hfits : i.Fits)
    (hcount : ∀ op o, i.op = .shift op → i.operands[1]? = some o →
      (φ.model c.model).extended = c.model.extended ∨ (lowByte (c.value o)).toNat < 32) :
    i.execute (c.refit φ) = refitted φ (i.execute c) := by
  by_cases hshift : ∃ op, i.op = .shift op
  · obtain ⟨op, hop⟩ := hshift
    obtain ⟨dst, hdst, -⟩ := Use.exists_of_fit (n := 0) (u := .write) hfits (by rw [hop]; rfl)
    obtain ⟨count, hcnt, -⟩ := Use.exists_of_fit (n := 1) (u := .read) hfits (by rw [hop]; rfl)
    have hexec {K : Type} [Bus K] [HostService K H] :
        (i.execute : Exec K H Unit) = i.shift op := by simp only [execute, hop]
    rw [hexec, hexec, shift_apply hdst hcnt, shift_apply hdst hcnt, value_refit, model_refit]
    rcases hcount op count hop hcnt with hsame | hlow
    · rw [hsame]
      exact (Parallel.shiftBy op dst _).eq_refitted hc
    · simp only [Nat.mod_eq_of_lt hlow, ite_self]
      exact (Parallel.shiftBy op dst _).eq_refitted hc
  · exact (Parallel.execute fun op hop => hshift ⟨op, hop⟩).eq_refitted hc

end Instruction

namespace Cpu

variable {M N H : Type} [Bus M] [Bus N] {φ : Refit M N}

theorem atInstruction_refit {c : Cpu M H} (hdecoded : (c.refit φ).decoded = c.decoded) :
    (c.refit φ).atInstruction = c.atInstruction.refit φ := by
  simp only [atInstruction, hdecoded, regs_refit, noteAll_refit, note_refit, fetched_refit,
    flags_refit]

theorem step_refit [HostService M H] [HostService N H] {c : Cpu M H} (hc : c.Unserved)
    (hdecoded : (c.refit φ).decoded = c.decoded)
    (hcount : ∀ op o, c.decoded.instruction.op = .shift op →
      c.decoded.instruction.operands[1]? = some o →
      (φ.model c.model).extended = c.model.extended ∨
        (lowByte (c.atInstruction.value o)).toNat < 32) :
    step (c.refit φ) = refitted φ (step c) := by
  cases hhalted : c.halted with
  | true =>
    rw [step_of_halted hhalted, step_of_halted (by rw [halted_refit, hhalted])]
    rfl
  | false =>
    rw [step_of_running hhalted, step_of_running (by rw [halted_refit, hhalted]), hdecoded,
      atInstruction_refit hdecoded]
    exact Instruction.execute_refit (hc.follows (Follows.refl c).atInstruction)
      (fits_decode _) hcount

theorem decoded_refit {c : Cpu M H} (hmodel : φ.model c.model = c.model) :
    (c.refit φ).decoded = c.decoded := by
  simp only [decoded, regs_refit, memory_refit, model_refit, hmodel, φ.bus.decodeAt_map]

end Cpu

theorem Parallel.step {M N H : Type} [Bus M] [Bus N] [HostService M H] [HostService N H]
    {φ : Refit M N} (hmodel : ∀ m, φ.model m = m) :
    Parallel φ (Cpu.step : Exec M H Unit) Cpu.step := by
  constructor
  · intro c hc
    exact step_refit hc (decoded_refit (hmodel _)) fun _ _ _ _ => .inl (by rw [hmodel])
  · intro c d _ hc h
    obtain ⟨_, e, he, hu⟩ := Blameless.step.ok hc
    rw [h] at he
    cases he
    exact hu

end RealMode
