import RealMode.Proofs.EncodingLength
import RealMode.Proofs.RefittedExecution

/-! # The 80186 extends the 8086 -/
namespace RealMode

namespace CodeView

def withModel (v : CodeView) (model : Model) : CodeView := { v with model := model }

end CodeView

section Operands

variable (v : CodeView) (model : Model) (override : Option SegReg)

theorem Field.operand_withModel (f : Field) (i : Nat) :
    f.operand (v.withModel model) override i = f.operand v override i := by
  cases f with
  | imm w => cases w <;> rfl
  | _ => rfl

theorem Field.operands_withModel (fs : List Field) (i : Nat) :
    operands (v.withModel model) override fs i = operands v override fs i := by
  induction fs generalizing i with
  | nil => rfl
  | cons f fs ih => rw [operands, operands, operand_withModel, ih]

theorem Slot.operand_withModel (m : ModRm) (s : Slot) (i : Nat) :
    s.operand (v.withModel model) override m i = s.operand v override m i := by
  cases s with
  | field f => exact f.operand_withModel v model override i
  | _ => rfl

theorem Slot.operands_withModel (m : ModRm) (ss : List Slot) (i : Nat) :
    operands (v.withModel model) override m ss i = operands v override m ss i := by
  induction ss generalizing i with
  | nil => rfl
  | cons s ss ih => rw [operands, operands, operand_withModel, ih]

end Operands

namespace CodeView

variable {v : CodeView} {model : Model}

theorem HasOpcode.withModel {p : Prefixes} {k : Nat} {row : Row} (h : v.HasOpcode p k row)
    (hext : model.extended) : (v.withModel model).HasOpcode p k row :=
  ⟨h.scan, by simp [CodeView.withModel, hext], h.row⟩

theorem Encodes.withModel {d : Decoded} (h : v.Encodes d) (hext : model.extended) :
    (v.withModel model).Encodes d := by
  cases h with
  | plain h =>
    rw [← Field.operands_withModel v model]
    exact .plain (h.withModel hext)
  | modRm h hm hform htakes =>
    rw [← Slot.operands_withModel v model]
    exact .modRm (h.withModel hext) hm hform htakes

theorem decode_withModel (hcode : (decode v).instruction.op.isData = false)
    (hext : model.extended) : decode (v.withModel model) = decode v :=
  ((encodes_decode hcode).withModel hext).decode_eq

end CodeView

/-- The count of a shift is one or in CL, in a form that has it there. -/
def Form.countsShort (form : Form) : Bool :=
  match form.op, form.slots with
  | .shift _, [_, .field (.fixed o)] => o = .imm 1 .byte || o = .reg8 .cl
  | .shift _, _ => false
  | _, _ => true

/-- Only opcodes that came with the 80186 shift by other counts. -/
def Row.countsShort (opcode : UInt8) : Row → Bool
  | undefined => true
  | plain (.shift _) _ => false
  | plain _ _ => true
  | modRm form => form.countsShort
  | group forms => extendedOpcode opcode || forms.all fun form => form.all Form.countsShort

theorem Row.countsShort_opcodeMap :
    opcodeMap.toList.zipIdx.all fun (row, n) => row.countsShort (UInt8.ofNat n) := by
  decide +kernel

theorem Row.countsShort_of_form {opcode : UInt8} {row : Row} {reg : Nat} {form : Form}
    (h : row.countsShort opcode) (hcommon : ¬ extendedOpcode opcode)
    (hform : row.form? reg = some form) : form.countsShort := by
  rcases cases_of_form? hform with rfl | ⟨forms, rfl, hmem⟩
  · exact h
  · simp only [countsShort, hcommon, Bool.false_or] at h
    exact List.all_eq_true.mp h _ hmem

theorem Form.count_eq_of_countsShort {form : Form} (h : form.countsShort) {op : ShiftOp}
    (hop : form.op = .shift op) (v : CodeView) (override : Option SegReg) (m : ModRm) (i : Nat)
    {o : Operand} (ho : (Slot.operands v override m form.slots i)[1]? = some o) :
    o = .imm 1 .byte ∨ o = .reg8 .cl := by
  unfold countsShort at h
  split at h
  next op' s o' _ hslots =>
    rw [hslots] at ho
    obtain rfl : o' = o := Option.some.inj ho
    simpa using h
  next => exact nomatch h
  next hnone _ => exact absurd hop (hnone op)

theorem CodeView.shift_count {v : CodeView} (hmodel : v.model.extended = false) {op : ShiftOp}
    (hop : (decode v).instruction.op = .shift op) {o : Operand}
    (ho : (decode v).instruction.operands[1]? = some o) : o = .imm 1 .byte ∨ o = .reg8 .cl := by
  have hcode := encodes_decode (v := v) (by rw [hop]; rfl)
  generalize decode v = d at hop ho hcode
  cases hcode with
  | @plain p k op' fields h =>
    have hshort := Row.ofOpcode_of_zipIdx Row.countsShort_opcodeMap (v.code k)
    obtain rfl : op' = .shift op := hop
    rw [h.row] at hshort
    exact nomatch hshort
  | @modRm p k row form m h hm hform htakes =>
    have hshort := Row.ofOpcode_of_zipIdx Row.countsShort_opcodeMap (v.code k)
    rw [h.row] at hshort
    have hcommon : ¬ extendedOpcode (v.code k) := by simpa [hmodel] using h.known
    have hform := Row.countsShort_of_form hshort hcommon hform
    exact Form.count_eq_of_countsShort hform hop v _ m _ ho

namespace Cpu

variable {M H α : Type}

def withModel (c : Cpu M H) (model : Model) : Cpu M H := { c with model := model }

def asModel (model : Model) :
    EStateM.Result CpuError (Cpu M H) α → EStateM.Result CpuError (Cpu M H) α
  | .ok a c => .ok a (c.withModel model)
  | .error e c => .error e (c.withModel model)

theorem halted_withModel (c : Cpu M H) (model : Model) : (c.withModel model).halted = c.halted :=
  rfl

theorem steps_withModel (c : Cpu M H) (model : Model) : (c.withModel model).steps = c.steps := rfl

end Cpu

def Refit.toModel {M : Type} [Bus M] (model : Model) : Refit M M := ⟨.id, fun _ => model⟩

namespace Cpu

variable {M H α : Type} [Bus M]

theorem refit_toModel (c : Cpu M H) (model : Model) :
    c.refit (.toModel model) = c.withModel model := by
  cases c
  rfl

theorem refitted_toModel (model : Model) (r : EStateM.Result CpuError (Cpu M H) α) :
    refitted (.toModel model) r = asModel model r := by
  cases r <;> simp only [refitted, asModel, refit_toModel]

/-- The processor comes upon an instruction that it has in common with the 80186: not upon data,
and not upon a shift by a count in CL above 31. -/
structure AtCommon (c : Cpu M H) : Prop where
  code : c.decoded.instruction.op.isData = false
  count : ∀ op, c.decoded.instruction.op = .shift op →
    c.decoded.instruction.operands[1]? = some (.reg8 .cl) → (c.regs.get8 .cl).toNat ≤ 31

theorem decoded_withModel {c : Cpu M H} {model : Model}
    (hcode : c.decoded.instruction.op.isData = false) (hext : model.extended) :
    (c.withModel model).decoded = c.decoded :=
  CodeView.decode_withModel hcode hext

theorem AtCommon.count_lt {c : Cpu M H} (h : c.AtCommon) (hmodel : c.model.extended = false)
    {op : ShiftOp} (hop : c.decoded.instruction.op = .shift op) {o : Operand}
    (ho : c.decoded.instruction.operands[1]? = some o) :
    (lowByte (c.atInstruction.value o)).toNat < 32 := by
  rcases CodeView.shift_count hmodel hop ho with rfl | rfl
  · show (lowByte (Width.byte.truncate 1)).toNat < 32
    decide
  · have hcl := h.count op hop ho
    simp only [value, regs_atInstruction, lowByte_wordOfByte]
    exact Nat.lt_succ_of_le hcl

variable [HostService M H]

theorem AtCommon.step_withModel {c : Cpu M H} (h : c.AtCommon) (hc : c.Unserved)
    (hmodel : c.model.extended = false) {model : Model} (hext : model.extended) :
    step (c.withModel model) = asModel model (step c) := by
  have hdecoded := decoded_withModel h.code hext
  rw [← refit_toModel, ← refitted_toModel]
  rw [← refit_toModel] at hdecoded
  exact step_refit hc hdecoded fun op o hop ho => .inr (h.count_lt hmodel hop ho)

/-- A run that begins at `c` executes an instruction in state `d`. -/
inductive Passes (start : Nat) (limit : Option Nat) : Cpu M H → Cpu M H → Prop where
  | here {c : Cpu M H} (running : c.halted = false)
      (within : ¬ limit.any (· ≤ c.steps - start)) : Passes start limit c c
  | later {c d e : Cpu M H} (running : c.halted = false)
      (within : ¬ limit.any (· ≤ c.steps - start)) (hstep : step c = .ok () d)
      (h : Passes start limit d e) : Passes start limit c e

theorem runFrom_succ_apply (start : Nat) (limit : Option Nat) (fuel : Nat) (c : Cpu M H) :
    runFrom start limit (fuel + 1) c =
      if c.halted then .ok ⟨c.steps - start, .halted⟩ c
      else if limit.any (· ≤ c.steps - start) then .ok ⟨c.steps - start, .stepLimit⟩ c
      else (step >>= fun _ => runFrom start limit fuel) c := by
  show (if _ then _ else if _ then _ else _ : Exec M H RunSummary) c = _
  split
  next => rfl
  next =>
    split
    next => rfl
    next => rfl

theorem lasting_original :
    Lasting fun c : Cpu M H => c.Unserved ∧ c.model.extended = false :=
  .of_unserved And.left fun h hc => ⟨hc.1.follows h, h.model ▸ hc.2⟩

theorem runFrom_withModel {model : Model} (hext : model.extended) {start : Nat}
    {limit : Option Nat} {fuel : Nat} {c : Cpu M H} (hc : c.Unserved)
    (hmodel : c.model.extended = false) (hpasses : ∀ d, Passes start limit c d → d.AtCommon) :
    runFrom start limit fuel (c.withModel model) = asModel model (runFrom start limit fuel c) := by
  induction fuel generalizing c with
  | zero =>
    show EStateM.Result.ok (RunSummary.mk (_ - start) .stepLimit) _ = _
    rw [steps_withModel]
    rfl
  | succ fuel ih =>
    rw [runFrom_succ_apply, runFrom_succ_apply, halted_withModel, steps_withModel]
    split
    next => rfl
    next hhalted =>
      split
      next => rfl
      next hwithin =>
        have hrunning := Bool.eq_false_iff.mpr hhalted
        obtain ⟨_, d, hd, hu, hbase⟩ := (Upholds.step lasting_original).ok ⟨hc, hmodel⟩
        have hstep := (hpasses c (.here hrunning hwithin)).step_withModel hc hmodel hext
        rw [hd] at hstep
        show EStateM.bind _ _ _ = asModel model (EStateM.bind _ _ _)
        simp only [EStateM.bind, hd, hstep, asModel]
        exact ih hu hbase fun e he => hpasses e (.later hrunning hwithin hd he)

theorem execute_apply (x : ExecutionContext) (c : Cpu M H) :
    Cpu.execute x c = run x.limit (c.enterContext x) := rfl

omit [Bus M] [HostService M H] in
theorem enterContext_withModel (c : Cpu M H) (model : Model) (x : ExecutionContext) :
    (c.withModel model).enterContext x = (c.enterContext x).withModel model := by
  cases c
  rfl

/-- An 80186 does what an 8086 does: it decodes the same instruction where the 8086 finds one,
its step has the same result and leaves the same state unless CL holds a count above 31 for a
shift, and so has a run in which every step meets this. -/
theorem extended_model_agrees {c : Cpu M H} (hc : c.Unserved) (hmodel : c.model.extended = false)
    {model : Model} (hext : model.extended) :
    (c.decoded.instruction.op.isData = false → (c.withModel model).decoded = c.decoded) ∧
    (c.AtCommon → step (c.withModel model) = asModel model (step c)) ∧
    (∀ limit, (∀ d, Passes c.steps limit c d → d.AtCommon) →
      run limit (c.withModel model) = asModel model (run limit c)) ∧
    ∀ x : ExecutionContext,
      (∀ d, Passes c.steps x.limit (c.enterContext x) d → d.AtCommon) →
        Cpu.execute x (c.withModel model) = asModel model (Cpu.execute x c) := by
  have hrun {d : Cpu M H} (hd : d.Unserved) (hbase : d.model.extended = false)
      (limit : Option Nat) (hpasses : ∀ e, Passes d.steps limit d e → e.AtCommon) :
      run limit (d.withModel model) = asModel model (run limit d) := by
    show runFrom _ _ _ _ = asModel model (runFrom _ _ _ _)
    rw [steps_withModel]
    exact runFrom_withModel hext hd hbase hpasses
  refine ⟨?_, ?_, hrun hc hmodel, ?_⟩
  · intro hcode
    exact decoded_withModel hcode hext
  · intro h
    exact h.step_withModel hc hmodel hext
  · intro x hpasses
    have hfollows := (Follows.refl c).enterContext x
    rw [execute_apply, execute_apply, enterContext_withModel]
    exact hrun (hc.follows hfollows) (hfollows.model ▸ hmodel) x.limit hpasses

end Cpu

namespace Filled

/-- A processor that finds nothing but ADD of AL to the byte at DS:BX+SI. -/
def adding : Cpu Filled Empty := ⟨.zero, .reset, ⟨0x00⟩, .empty, 0, false, .i8086, .silent⟩

/-- A processor that finds nothing but RCL of BX by CL, with the largest common count in CL. -/
def rotating : Cpu Filled Empty :=
  ⟨{ Registers.zero with bx := 0x8000, cx := 31 }, .reset, ⟨0xD3⟩, .empty, 0, false, .i8086,
    .silent⟩

theorem op_of_form {c : Cpu Filled Empty} {b : UInt8} {form : Form} (hb : c.memory.byte = b)
    (hfirst : Prefixes.none.add? b = none) (hcommon : extendedOpcode b = false)
    (hform : (Row.ofOpcode b).form? (ModRm.ofByte b).reg = some form)
    (htakes : form.takes (.ofByte b)) : c.decoded.instruction.op = form.op := by
  let v := CodeView.ofBus c.memory c.regs c.model c.regs.cs c.regs.ip
  have hcode (i : Nat) : v.code i = b := hb
  show (decode v).instruction.op = _
  rw [CodeView.decode_of_form (hcode 0) (hcode 1) hfirst hcommon hform htakes]
  rfl

theorem op_adding {c : Cpu Filled Empty} (h : c.memory.byte = 0x00) :
    c.decoded.instruction.op = .alu .add :=
  op_of_form h (by decide) (by decide)
    (show _ = some ⟨.alu .add, [.rm .byte, .reg .byte]⟩ by decide +kernel) Bool.false_ne_true

theorem op_rotating : rotating.decoded.instruction.op = .shift .rcl :=
  op_of_form rfl (by decide) (by decide)
    (show _ = some ⟨.shift .rcl, [.rm .word, .field (.fixed (.reg8 .cl))]⟩ by decide +kernel)
    Bool.false_ne_true

theorem atCommon_adding {c : Cpu Filled Empty} (h : c.memory.byte = 0x00) : c.AtCommon := by
  constructor
  · rw [op_adding h]
    rfl
  · intro op hshift
    rw [op_adding h] at hshift
    exact nomatch hshift

theorem atCommon_rotating : rotating.AtCommon := by
  constructor
  · rw [op_rotating]
    rfl
  · intro _ _ _
    decide

theorem byte_of_passes {start : Nat} {limit : Option Nat} {c d : Cpu Filled Empty} {b : UInt8}
    (hpasses : c.Passes start limit d) (hc : c.Unserved) (hb : c.memory.byte = b) :
    d.memory.byte = b := by
  have hlasting : Cpu.Lasting fun c : Cpu Filled Empty => c.Unserved ∧ c.memory.byte = b :=
    .of_unserved And.left fun h hc => ⟨hc.1.follows h, eq_of_reaches h.memory ▸ hc.2⟩
  induction hpasses with
  | here => exact hb
  | later _ _ hstep _ ih =>
    obtain ⟨_, e, he, hu, hbe⟩ := (Upholds.step hlasting).ok ⟨hc, hb⟩
    rw [hstep] at he
    cases he
    exact ih hu hbe

/-- Additions to memory run alike under every limit, and so does the step of a rotation by 31. -/
theorem adding_and_rotating_agree :
    (adding.Unserved ∧ rotating.Unserved ∧ adding.model.extended = false ∧
      rotating.model.extended = false ∧ Model.i80186.extended) ∧
    (∀ limit, Cpu.run limit (adding.withModel .i80186) =
      Cpu.asModel .i80186 (Cpu.run limit adding)) ∧
    rotating.AtCommon ∧ rotating.decoded.instruction.op = .shift .rcl ∧
      Cpu.step (rotating.withModel .i80186) = Cpu.asModel .i80186 (Cpu.step rotating) := by
  have hadding : adding.Unserved := Services.get?_empty
  have hrotating : rotating.Unserved := Services.get?_empty
  have hext : Model.i80186.extended := rfl
  obtain ⟨-, -, hrun, -⟩ := Cpu.extended_model_agrees hadding rfl hext
  obtain ⟨-, hstep, -⟩ := Cpu.extended_model_agrees hrotating rfl hext
  refine ⟨⟨hadding, hrotating, rfl, rfl, hext⟩, fun limit => ?_, atCommon_rotating, op_rotating,
    hstep atCommon_rotating⟩
  exact hrun limit fun d hd => atCommon_adding (byte_of_passes hd hadding rfl)

end Filled
end RealMode
