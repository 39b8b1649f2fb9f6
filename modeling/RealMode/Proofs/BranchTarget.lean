import RealMode.Proofs.EncodingLength
import RealMode.Proofs.InstructionFootprint

/-! # Where branches lead -/
namespace RealMode

def Op.isNearBranch : Op → Bool
  | jcc _ | jmp | call | loop | loope | loopne | jcxz => true
  | _ => false

theorem Op.uses_of_isData {op : Op} (h : op.isData) : op.uses = [] := by
  cases op with
  | db | dw => rfl
  | _ => cases h

theorem Op.isData_of_isNearBranch {op : Op} (h : op.isNearBranch) : op.isData = false := by
  cases op with
  | jcc | jmp | call | loop | loope | loopne | jcxz => rfl
  | _ => cases h

def CodeView.displacement (v : CodeView) : UInt16 :=
  let k := Grammar.prefixRun v.code
  if v.code k = 0xE8 ∨ v.code k = 0xE9 then v.word (k + 1) else signExtend (v.code (k + 1))

namespace Instruction

/-- JMP and CALL may also take their target from a register or from memory. -/
def isRelative (i : Instruction) : Bool :=
  match i.op, i.operands with
  | .jcc _, _ | .loop, _ | .loope, _ | .loopne, _ | .jcxz, _ => true
  | .jmp, .near _ :: _ | .call, .near _ :: _ => true
  | _, _ => false

def movesToCs (i : Instruction) : Bool := i.op = .mov && i.operands.head? = some (.seg .cs)

theorem isNearBranch_of_isRelative {i : Instruction} (h : i.isRelative) : i.op.isNearBranch := by
  obtain ⟨op, operands, repeated, lock, override, length⟩ := i
  cases op with
  | jcc | jmp | call | loop | loope | loopne | jcxz => rfl
  | _ => cases h

end Instruction

section Rows

/-- A branch with an addressing byte takes its target from the register or memory operand. -/
def Form.branches (form : Form) : Bool :=
  !form.op.isNearBranch || (form.op = .jmp || form.op = .call) && form.slots = [.rm .word]

def Row.branches (opcode : UInt8) : Row → Bool
  | undefined => true
  | plain op fields =>
    !op.isNearBranch ||
      if opcode = 0xE8 ∨ opcode = 0xE9 then fields = [.rel16] else fields = [.rel8]
  | modRm form => form.branches
  | group forms => forms.all fun form => form.all Form.branches

theorem Row.branches_opcodeMap :
    opcodeMap.toList.zipIdx.all fun (row, n) => row.branches (UInt8.ofNat n) := by
  decide +kernel

theorem Row.branches_of_form? {opcode : UInt8} {row : Row} {reg : Nat} {form : Form}
    (h : row.branches opcode) (hform : row.form? reg = some form) : form.branches := by
  rcases cases_of_form? hform with rfl | ⟨forms, rfl, hmem⟩
  · exact h
  · exact List.all_eq_true.mp h _ hmem

def Field.namesCs : Field → Bool
  | fixed o => o = .seg .cs
  | _ => false

def Slot.namesCs : Slot → Bool
  | seg => true
  | field f => f.namesCs
  | reg _ | rm _ | mem _ => false

def Form.keepsCs (form : Form) : Bool :=
  form.op = .mov || (form.op.uses.zip form.slots).all fun (u, s) => u ≠ .write || !s.namesCs

/-- No operation but MOV writes to CS as its operand. -/
def Row.keepsCs : Row → Bool
  | undefined => true
  | plain op fields => (op.uses.zip fields).all fun (u, f) => u ≠ .write || !f.namesCs
  | modRm form => form.keepsCs
  | group forms => forms.all fun form => form.all Form.keepsCs

theorem Row.keepsCs_opcodeMap : opcodeMap.toList.all keepsCs := by decide +kernel

theorem Row.keepsCs_of_form? {row : Row} {reg : Nat} {form : Form} (h : row.keepsCs)
    (hform : row.form? reg = some form) : form.keepsCs := by
  rcases cases_of_form? hform with rfl | ⟨forms, rfl, hmem⟩
  · exact h
  · exact List.all_eq_true.mp h _ hmem

end Rows

section Operands

variable {v : CodeView} {override : Option SegReg} {m : ModRm} {i n : Nat} {o : Operand}

theorem Field.exists_of_operands {fs : List Field}
    (h : (operands v override fs i)[n]? = some o) :
    ∃ f j, fs[n]? = some f ∧ f.operand v override j = o := by
  induction fs generalizing i n with
  | nil => exact nomatch h
  | cons f fs ih =>
    cases n with
    | zero => exact ⟨f, i, rfl, Option.some.inj h⟩
    | succ n => exact ih h

theorem Slot.exists_of_operands {ss : List Slot}
    (h : (operands v override m ss i)[n]? = some o) :
    ∃ s j, ss[n]? = some s ∧ s.operand v override m j = o := by
  induction ss generalizing i n with
  | nil => exact nomatch h
  | cons s ss ih =>
    cases n with
    | zero => exact ⟨s, i, rfl, Option.some.inj h⟩
    | succ n => exact ih h

theorem Field.namesCs_of_operand {f : Field} (h : f.operand v override i = .seg .cs) :
    f.namesCs := by
  cases f with
  | fixed o => exact decide_eq_true h
  | imm w => cases w <;> exact nomatch h
  | _ => exact nomatch h

theorem Operand.register_ne_seg (i : Nat) (w : Width) (s : SegReg) : register i w ≠ .seg s := by
  cases w <;> exact fun h => nomatch h

theorem Operand.ofModRm_ne_near (r : Registers) (d : UInt16) (w : Width) (t : UInt16) :
    ofModRm r m d w override ≠ .near t := by
  unfold ofModRm
  split
  next => cases w <;> exact fun h => nomatch h
  next => exact fun h => nomatch h

theorem Operand.ofModRm_ne_seg (r : Registers) (d : UInt16) (w : Width) (s : SegReg) :
    ofModRm r m d w override ≠ .seg s := by
  unfold ofModRm
  split
  next => exact register_ne_seg _ w s
  next => exact fun h => nomatch h

theorem Slot.namesCs_of_operand {s : Slot} (h : s.operand v override m i = .seg .cs) :
    s.namesCs := by
  cases s with
  | reg w => exact absurd h (Operand.register_ne_seg _ w .cs)
  | seg => rfl
  | rm w | mem w => exact absurd h (Operand.ofModRm_ne_seg _ _ w .cs)
  | field f => exact Field.namesCs_of_operand h

end Operands

theorem Instruction.exists_of_mem_written {i : Instruction} {o : Operand} (h : o ∈ i.written) :
    ∃ n : Nat, i.op.uses[n]? = some Use.write ∧ i.operands[n]? = some o := by
  obtain ⟨⟨u, x⟩, hmem, hwrite⟩ := List.mem_filterMap.mp h
  dsimp only at hwrite
  by_cases hu : u = .write
  · subst hu
    obtain ⟨n, hn⟩ := List.mem_iff_getElem?.mp hmem
    obtain ⟨huse, hoperand⟩ := List.getElem?_zip_eq_some.mp hn
    refine ⟨n, huse, ?_⟩
    exact hoperand.trans hwrite
  · rw [if_neg hu] at hwrite
    exact nomatch hwrite

namespace CodeView

variable {v : CodeView}

theorem HasOpcode.prefixRun_eq {p : Prefixes} {k : Nat} {row : Row} (h : v.HasOpcode p k row) :
    Grammar.prefixRun v.code = k := by
  obtain ⟨hk, hbefore, hend⟩ := Prefixes.of_scan_eq_some h.scan
  apply Grammar.prefixRun_eq _ (fun i hi => hbefore i (Nat.zero_le i) hi) hend
  simp only [prefixBudget] at hk
  omega

theorem operand_of_relative (h : (decode v).instruction.isRelative) :
    (decode v).instruction.operands[0]? =
      some (.near (v.ip + UInt16.ofNat (decode v).instruction.length + v.displacement)) := by
  have hbranch := Instruction.isNearBranch_of_isRelative h
  have hencodes := encodes_decode (Op.isData_of_isNearBranch hbranch)
  generalize decode v = d at h hbranch hencodes
  cases hencodes with
  | @plain p k op fields hopcode =>
    have hrow := Row.ofOpcode_of_zipIdx Row.branches_opcodeMap (v.code k)
    have hop : op.isNearBranch = true := hbranch
    rw [hopcode.row] at hrow
    simp only [Row.branches, hop, Bool.not_true, Bool.false_or] at hrow
    have hplace := hopcode.prefixRun_eq
    by_cases hlong : v.code k = 0xE8 ∨ v.code k = 0xE9
    · simp only [hlong, ↓reduceIte, decide_eq_true_eq] at hrow
      subst hrow
      simp only [displacement, hplace, hlong, ↓reduceIte]
      rfl
    · simp only [hlong, ↓reduceIte, decide_eq_true_eq] at hrow
      subst hrow
      simp only [displacement, hplace, hlong, ↓reduceIte]
      rfl
  | @modRm p k row form m hopcode hm hform htakes =>
    have hrow := Row.ofOpcode_of_zipIdx Row.branches_opcodeMap (v.code k)
    rw [hopcode.row] at hrow
    have hslots := Row.branches_of_form? hrow hform
    have hop : form.op.isNearBranch = true := hbranch
    simp only [Form.branches, hop, Bool.not_true, Bool.false_or, Bool.and_eq_true,
      Bool.or_eq_true, decide_eq_true_eq] at hslots
    obtain ⟨hjump, hslots⟩ := hslots
    have hne (t : UInt16) :
        Operand.ofModRm v.regs m (Slot.displacement v m (k + 2)) .word p.segment ≠ .near t :=
      Operand.ofModRm_ne_near _ _ _ t
    have hoperands : Slot.operands v p.segment m form.slots (k + 2) =
        [.ofModRm v.regs m (Slot.displacement v m (k + 2)) .word p.segment] := by
      rw [hslots]
      rfl
    rw [hoperands] at h
    generalize Operand.ofModRm v.regs m _ .word p.segment = o at h hne
    rcases hjump with hjump | hjump <;> rw [hjump] at h
    · cases o with
      | near t => exact absurd rfl (hne t)
      | _ => exact nomatch h
    · cases o with
      | near t => exact absurd rfl (hne t)
      | _ => exact nomatch h

/-- Only MOV has CS as an operand that it writes. -/
theorem movesToCs_of_written (h : .seg .cs ∈ (decode v).instruction.written) :
    (decode v).instruction.movesToCs := by
  have hcode : (decode v).instruction.op.isData = false := by
    apply Bool.eq_false_iff.mpr
    intro hdata
    obtain ⟨n, hu, -⟩ := Instruction.exists_of_mem_written h
    rw [Op.uses_of_isData hdata] at hu
    exact nomatch hu
  have hencodes := encodes_decode hcode
  generalize decode v = d at h hencodes
  obtain ⟨n, hu, ho⟩ := Instruction.exists_of_mem_written h
  cases hencodes with
  | @plain p k op fields hopcode =>
    have hrow : (Row.plain op fields).keepsCs :=
      hopcode.row ▸ Row.ofOpcode_of_all Row.keepsCs_opcodeMap rfl (v.code k)
    obtain ⟨f, j, hf, hcs⟩ := Field.exists_of_operands ho
    have hzip : (op.uses.zip fields)[n]? = some (Use.write, f) :=
      List.getElem?_zip_eq_some.mpr ⟨hu, hf⟩
    have hchecked := List.all_eq_true.mp hrow _ (List.mem_of_getElem? hzip)
    simp [Field.namesCs_of_operand hcs] at hchecked
  | @modRm p k row form m hopcode hm hform htakes =>
    have hrow : row.keepsCs :=
      hopcode.row ▸ Row.ofOpcode_of_all Row.keepsCs_opcodeMap rfl (v.code k)
    have hkeeps := Row.keepsCs_of_form? hrow hform
    obtain ⟨s, j, hs, hcs⟩ := Slot.exists_of_operands ho
    have hzip : (form.op.uses.zip form.slots)[n]? = some (Use.write, s) :=
      List.getElem?_zip_eq_some.mpr ⟨hu, hs⟩
    simp only [Form.keepsCs, Bool.or_eq_true, decide_eq_true_eq] at hkeeps
    rcases hkeeps with hmov | hall
    · have hu : ([.write, .read] : List Use)[n]? = some .write := by
        have huses : form.op.uses[n]? = some .write := hu
        rwa [hmov] at huses
      have hfirst : n = 0 := by
        rcases n with - | - | n
        · rfl
        · exact nomatch hu
        · exact nomatch hu
      subst hfirst
      rw [Instruction.movesToCs, List.head?_eq_getElem?, ho]
      exact Bool.and_eq_true_iff.mpr ⟨decide_eq_true hmov, decide_eq_true rfl⟩
    · have hchecked := List.all_eq_true.mp hall _ (List.mem_of_getElem? hzip)
      simp [Slot.namesCs_of_operand hcs] at hchecked

end CodeView
end RealMode
