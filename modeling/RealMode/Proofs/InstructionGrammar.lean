import RealMode.Proofs.OperandShape

/-! # The instruction grammar -/
namespace RealMode

def Op.isData : Op → Bool
  | db | dw => true
  | _ => false

namespace Grammar

def prefixBytes : List UInt8 := [0x26, 0x2E, 0x36, 0x3E, 0xF0, 0xF2, 0xF3]

/-- The number of leading prefixes among the bytes of the segment, read once around. -/
def prefixRun (code : Nat → UInt8) : Nat :=
  ((List.range 0x10000).map code).findIdx fun b => !prefixBytes.contains b

/-- Bytes that are an opcode of no model. -/
def unassigned : List UInt8 := [0x0F, 0x63, 0x64, 0x65, 0x66, 0x67, 0xF1]

/-- Opcodes that the 8086 and the 8088 do not have. -/
def added : List UInt8 :=
  [0x60, 0x61, 0x62, 0x68, 0x69, 0x6A, 0x6B, 0x6C, 0x6D, 0x6E, 0x6F, 0xC0, 0xC1, 0xC8, 0xC9]

def UnknownOpcode (model : Model) (opcode : UInt8) : Prop :=
  opcode ∈ unassigned ∨ (model = .i8086 ∨ model = .i8088) ∧ opcode ∈ added

/-- Whether an opcode does not take an addressing byte with the given register field, and with
mode 3 if `register` is set. -/
def unknownForm (opcode : UInt8) (reg : Nat) (register : Bool) : Bool :=
  match opcode.toNat with
  | 0x8F | 0xC6 | 0xC7 => reg != 0
  | 0xFE => 2 ≤ reg
  | 0xFF => reg == 7 || (reg == 3 || reg == 5) && register
  | 0x62 | 0x8D | 0xC4 | 0xC5 => register
  | _ => false

section PrefixRun

variable {code : Nat → UInt8} {k : Nat}

theorem mem_of_lt_prefixRun {i : Nat} (h : i < prefixRun code) : code i ∈ prefixBytes := by
  simpa using List.not_of_lt_findIdx h

theorem le_prefixRun (hk : k < 0x10000) (h : ∀ i < k, code i ∈ prefixBytes) :
    k ≤ prefixRun code := by
  apply List.le_findIdx_of_not
  · simpa using h
  · simpa using hk

theorem prefixRun_eq (hk : k < 0x10000) (h : ∀ i < k, code i ∈ prefixBytes)
    (hend : code k ∉ prefixBytes) : prefixRun code = k := by
  have hle := le_prefixRun hk h
  have hnot : ¬ k < prefixRun code := fun hlt => hend (mem_of_lt_prefixRun hlt)
  omega

end PrefixRun
end Grammar

theorem ModRm.reg_ofByte_lt (b : UInt8) : (ofByte b).reg < 8 := Nat.mod_lt _ (by decide)

namespace Prefixes

open Grammar

theorem add?_eq_none_iff (p : Prefixes) (b : UInt8) : p.add? b = .none ↔ b ∉ prefixBytes := by
  simp only [prefixBytes, List.mem_cons, List.not_mem_nil, or_false, ← UInt8.toNat_inj,
    UInt8.reduceToNat]
  unfold add?
  split <;> simp_all

theorem mem_of_add?_eq_some {p q : Prefixes} {b : UInt8} (h : p.add? b = some q) :
    b ∈ prefixBytes := by
  apply Decidable.of_not_not
  intro hmem
  rw [(add?_eq_none_iff p b).mpr hmem] at h
  exact nomatch h

theorem mem_of_scan_eq_none {code : Nat → UInt8} {budget : Nat} {p : Prefixes} {i : Nat}
    (h : scan code budget p i = .none) {j : Nat} (hj : j < budget) :
    code (i + j) ∈ prefixBytes := by
  induction budget generalizing p i j with
  | zero => omega
  | succ budget ih =>
    rw [scan] at h
    split at h
    next q hq =>
      cases j with
      | zero => exact mem_of_add?_eq_some hq
      | succ j =>
        have hnext := ih h (Nat.lt_of_succ_lt_succ hj)
        rwa [Nat.add_right_comm] at hnext
    next => exact nomatch h

theorem of_scan_eq_some {code : Nat → UInt8} {budget : Nat} {p q : Prefixes} {i k : Nat}
    (h : scan code budget p i = some (q, k)) :
    k < i + budget ∧ (∀ j, i ≤ j → j < k → code j ∈ prefixBytes) ∧ code k ∉ prefixBytes := by
  induction budget generalizing p i with
  | zero => exact nomatch h
  | succ budget ih =>
    rw [scan] at h
    split at h
    next r hr =>
      obtain ⟨hk, hbefore, hend⟩ := ih h
      refine ⟨by omega, ?_, hend⟩
      intro j hij hjk
      by_cases hji : j = i
      · exact hji ▸ mem_of_add?_eq_some hr
      · exact hbefore j (by omega) hjk
    next hnone =>
      obtain ⟨rfl, rfl⟩ : p = q ∧ i = k := by simpa using h
      refine ⟨by omega, fun j hij hji => absurd hij (Nat.not_le.mpr hji), ?_⟩
      exact (add?_eq_none_iff p _).mp hnone

end Prefixes

namespace Row

open Grammar

def isUndefined : Row → Bool
  | undefined => true
  | _ => false

theorem eq_undefined {row : Row} (h : row.isUndefined) : row = undefined := by
  cases row with
  | undefined => rfl
  | _ => exact nomatch h

def refuses (reg : Nat) (register : Bool) : Row → Bool
  | undefined | plain _ _ => false
  | modRm form => register && form.slots.any Slot.isMem
  | group forms =>
    match forms.getD reg none with
    | some form => register && form.slots.any Slot.isMem
    | none => true

def isCode : Row → Bool
  | undefined => true
  | plain op _ => !op.isData
  | modRm form => !form.op.isData
  | group forms => forms.all fun form => form.all fun f => !f.op.isData

/-- The row says of its opcode what the grammar says. -/
def agrees (opcode : UInt8) (row : Row) : Bool :=
  row.isCode &&
    row.isUndefined == (prefixBytes.contains opcode || unassigned.contains opcode) &&
    (List.range 8).all fun reg => [false, true].all fun register =>
      row.refuses reg register == unknownForm opcode reg register

theorem agrees_opcodeMap :
    opcodeMap.toList.zipIdx.all fun (row, n) => row.agrees (UInt8.ofNat n) := by
  decide +kernel

theorem ofOpcode_of_zipIdx {check : UInt8 → Row → Bool}
    (h : opcodeMap.toList.zipIdx.all fun (row, n) => check (UInt8.ofNat n) row) (b : UInt8) :
    check b (ofOpcode b) := by
  have hb : b.toNat < opcodeMap.size := by
    rw [size_opcodeMap]
    exact b.toNat_lt
  have hmem : (ofOpcode b, b.toNat) ∈ opcodeMap.toList.zipIdx := by
    rw [List.mk_mem_zipIdx_iff_getElem?, Array.getElem?_toList, Array.getElem?_eq_getElem hb]
    simp [ofOpcode, Array.getD, hb]
  simpa using List.all_eq_true.mp h _ hmem

theorem agrees_ofOpcode (b : UInt8) : (ofOpcode b).agrees b :=
  ofOpcode_of_zipIdx agrees_opcodeMap b

section OfOpcode

variable (b : UInt8)

theorem isCode_ofOpcode : (ofOpcode b).isCode := by
  have h := agrees_ofOpcode b
  simp only [agrees, Bool.and_eq_true] at h
  exact h.1.1

theorem isUndefined_ofOpcode_iff :
    (ofOpcode b).isUndefined ↔ b ∈ prefixBytes ∨ b ∈ unassigned := by
  have h := agrees_ofOpcode b
  simp only [agrees, Bool.and_eq_true, beq_iff_eq] at h
  rw [h.1.2, Bool.or_eq_true, List.contains_iff_mem, List.contains_iff_mem]

theorem refuses_ofOpcode {reg : Nat} (hreg : reg < 8) (register : Bool) :
    (ofOpcode b).refuses reg register = unknownForm b reg register := by
  have h := agrees_ofOpcode b
  simp only [agrees, Bool.and_eq_true, List.all_eq_true, List.mem_range, beq_iff_eq] at h
  exact h.2 reg hreg register (by cases register <;> decide)

end OfOpcode
end Row

namespace Decoded

open Grammar

variable (v : CodeView)

def byteData : Instruction := .bare .db [.imm (wordOfByte (v.code 0)) .byte] 1

def wordData : Instruction := .bare .dw [.imm (v.word 0) .word] 2

theorem instruction_data (consumed : Nat) (fault : DecodeFault) :
    (data v consumed fault).instruction = if consumed ≤ 1 then byteData v else wordData v := by
  unfold data
  split <;> rfl

/-- What becomes of an opcode at byte `i` and of the bytes behind it: the opcode is refused, or
its addressing byte is, or there is an instruction. -/
inductive Outcome (opcodeRefused formRefused : Prop) (i : Nat) (d : Decoded) : Prop where
  | opcode (h : opcodeRefused) (hd : d.instruction = if i = 0 then byteData v else wordData v)
  | form (known : ¬ opcodeRefused) (h : formRefused) (hd : d.instruction = wordData v)
  | code (known : ¬ opcodeRefused) (h : ¬ formRefused) (hd : d.instruction.op.isData = false)

theorem wordData_ne_byteData : wordData v ≠ byteData v := fun h => nomatch congrArg (·.op) h

namespace Outcome

variable {v} {opcodeRefused formRefused : Prop} {i : Nat} {d : Decoded}

theorem isData_iff (h : Outcome v opcodeRefused formRefused i d) :
    d.instruction.op.isData ↔ opcodeRefused ∨ formRefused := by
  rcases h with ⟨refused, hd⟩ | ⟨-, refused, hd⟩ | ⟨known, admitted, hd⟩
  · refine iff_of_true ?_ (Or.inl refused)
    rw [hd]
    split <;> rfl
  · exact iff_of_true (hd ▸ rfl) (Or.inr refused)
  · exact iff_of_false (by simp [hd]) (not_or.mpr ⟨known, admitted⟩)

theorem eq_byteData_iff (h : Outcome v opcodeRefused formRefused i d) :
    d.instruction = byteData v ↔ i = 0 ∧ opcodeRefused := by
  rcases h with ⟨refused, hd⟩ | ⟨known, -, hd⟩ | ⟨known, -, hd⟩
  · by_cases hi : i = 0
    · rw [hd, if_pos hi]
      exact iff_of_true rfl ⟨hi, refused⟩
    · rw [hd, if_neg hi]
      exact iff_of_false (wordData_ne_byteData v) fun h => hi h.1
  · rw [hd]
    exact iff_of_false (wordData_ne_byteData v) fun h => known h.2
  · refine iff_of_false (fun heq => ?_) fun h => known h.2
    rw [heq] at hd
    exact nomatch hd

theorem eq_wordData (h : Outcome v opcodeRefused formRefused i d)
    (hdata : d.instruction.op.isData) (hbyte : ¬ (i = 0 ∧ opcodeRefused)) :
    d.instruction = wordData v := by
  rcases h with ⟨refused, hd⟩ | ⟨-, -, hd⟩ | ⟨-, -, hd⟩
  · rw [hd, if_neg fun hi => hbyte ⟨hi, refused⟩]
  · exact hd
  · rw [hd] at hdata
    exact nomatch hdata

end Outcome

theorem outcome_opcode {opcodeRefused formRefused : Prop} {i : Nat} (fault : DecodeFault)
    (h : opcodeRefused) : Outcome v opcodeRefused formRefused i (data v (i + 1) fault) := by
  refine .opcode h ?_
  rw [instruction_data]
  by_cases hi : i = 0
  · rw [if_pos (by omega), if_pos hi]
  · rw [if_neg (by omega), if_neg hi]

theorem outcome_form {opcodeRefused formRefused : Prop} {i : Nat} (fault : DecodeFault)
    (known : ¬ opcodeRefused) (h : formRefused) :
    Outcome v opcodeRefused formRefused i (data v (i + 2) fault) := by
  refine .form known h ?_
  rw [instruction_data, if_neg (by omega)]

section OfRow

variable (p : Prefixes) (opcode : UInt8) (i : Nat)

theorem outcome_ofForm {opcodeRefused : Prop} (known : ¬ opcodeRefused) {form : Form}
    (hform : form.op.isData = false) :
    Outcome v opcodeRefused
      ((ModRm.ofByte (v.code (i + 1))).isRegister && form.slots.any Slot.isMem) i
      (ofForm v p opcode (i + 1) form) := by
  unfold ofForm
  dsimp only
  split
  next h => exact outcome_form v _ known h
  next h => exact .code known h hform

theorem outcome_ofRow {opcodeRefused : Prop} (known : ¬ opcodeRefused) {row : Row}
    (hcode : row.isCode) (hdefined : ¬ row.isUndefined) :
    Outcome v opcodeRefused
      (row.refuses (ModRm.ofByte (v.code (i + 1))).reg (ModRm.ofByte (v.code (i + 1))).isRegister)
      i (ofRow v p opcode i row) := by
  cases row with
  | undefined => exact absurd rfl hdefined
  | plain op fields =>
    have hop : op.isData = false := by simpa [Row.isCode] using hcode
    exact .code known (by simp [Row.refuses]) hop
  | modRm form => exact outcome_ofForm v p opcode i known (by simpa [Row.isCode] using hcode)
  | group forms =>
    simp only [ofRow, Row.refuses]
    cases hform : forms.getD (ModRm.ofByte (v.code (i + 1))).reg none with
    | none => exact outcome_form v _ known rfl
    | some form =>
      have hop := List.all_eq_true.mp hcode _ (Row.mem_of_getD_eq_some hform)
      exact outcome_ofForm v p opcode i known (by simpa using hop)

end OfRow

end Decoded

open Grammar in
theorem decode_of_prefixRun_ge {v : CodeView} (h : prefixBudget ≤ prefixRun v.code) :
    (decode v).instruction = Decoded.wordData v := by
  unfold decode
  split
  next => rfl
  next p i hscan =>
    obtain ⟨hi, -, hend⟩ := Prefixes.of_scan_eq_some hscan
    rw [Nat.zero_add] at hi
    exact absurd (mem_of_lt_prefixRun (Nat.lt_of_lt_of_le hi h)) hend

theorem extendedOpcode_iff (b : UInt8) : extendedOpcode b ↔ b ∈ Grammar.added := by
  simp only [extendedOpcode, Grammar.added, Bool.or_eq_true, Bool.and_eq_true, decide_eq_true_eq,
    beq_iff_eq, List.mem_cons, List.not_mem_nil, or_false, ← UInt8.toNat_inj, UInt8.reduceToNat]
  omega

theorem unknownOpcode_iff (model : Model) (opcode : UInt8) :
    Grammar.UnknownOpcode model opcode ↔
      opcode ∈ Grammar.unassigned ∨ extendedOpcode opcode ∧ model.extended = false := by
  rw [extendedOpcode_iff, Grammar.UnknownOpcode, and_comm (a := opcode ∈ Grammar.added)]
  cases model <;> simp [Model.extended]

open Grammar in
theorem outcome_decode {v : CodeView} {i : Nat} (hi : i < prefixBudget)
    (hrun : prefixRun v.code = i) :
    Decoded.Outcome v (UnknownOpcode v.model (v.code i))
      (unknownForm (v.code i) (ModRm.ofByte (v.code (i + 1))).reg
        (ModRm.ofByte (v.code (i + 1))).isRegister) i (decode v) := by
  unfold decode
  split
  next hscan =>
    have hle := le_prefixRun (k := prefixBudget) (by decide) fun j hj => by
      simpa using Prefixes.mem_of_scan_eq_none hscan hj
    omega
  next p k hscan =>
    obtain ⟨hk, hbefore, hend⟩ := Prefixes.of_scan_eq_some hscan
    have hlt : k < 0x10000 := Nat.lt_trans hk (by decide)
    obtain rfl : k = i := by
      rw [← hrun, prefixRun_eq hlt (fun j hj => hbefore j (Nat.zero_le j) hj) hend]
    dsimp only
    split
    next hmodel =>
      simp only [Bool.and_eq_true, Bool.not_eq_true'] at hmodel
      exact Decoded.outcome_opcode v _ ((unknownOpcode_iff _ _).mpr (Or.inr hmodel))
    next hmodel =>
      simp only [Bool.and_eq_true, Bool.not_eq_true', not_and, Bool.not_eq_false] at hmodel
      by_cases hassigned : v.code k ∈ unassigned
      · rw [Row.eq_undefined ((Row.isUndefined_ofOpcode_iff _).mpr (Or.inr hassigned))]
        exact Decoded.outcome_opcode v _ (Or.inl hassigned)
      · -- Prefix bytes have an undefined row as well, but the scan has stopped at another byte.
        have hdefined : ¬ (Row.ofOpcode (v.code k)).isUndefined := by
          rw [Row.isUndefined_ofOpcode_iff]
          exact not_or.mpr ⟨hend, hassigned⟩
        have known : ¬ UnknownOpcode v.model (v.code k) := by
          rw [unknownOpcode_iff]
          rintro (h | ⟨hext, hmodel'⟩)
          · exact hassigned h
          · exact absurd (hmodel hext) (by simp [hmodel'])
        rw [← Row.refuses_ofOpcode _ (ModRm.reg_ofByte_lt _)]
        exact Decoded.outcome_ofRow v p _ k known (Row.isCode_ofOpcode _) hdefined

/-- The bytes at an address are data exactly if the grammar refuses them: for fifteen prefixes
or more, for the opcode behind them, or for its addressing byte. They are a single byte exactly
if there is no prefix and the opcode is refused, and else a word. -/
theorem decodeAt_data_iff {M : Type} [Bus M] (m : M) (regs : Registers) (model : Model)
    (cs ip : UInt16) :
    let code := fun i => Bus.getByte m cs (ip + UInt16.ofNat i)
    let p := Grammar.prefixRun code
    let opcode := code p
    let addressing := ModRm.ofByte (code (p + 1))
    let instruction := (decodeAt m regs model cs ip).instruction
    (instruction.op.isData ↔
        15 ≤ p ∨ Grammar.UnknownOpcode model opcode ∨
          Grammar.unknownForm opcode addressing.reg (addressing.mode == 3)) ∧
      (instruction = .bare .db [.imm (wordOfByte (code 0)) .byte] 1 ↔
        p = 0 ∧ Grammar.UnknownOpcode model (code 0)) ∧
      (instruction.op.isData → ¬ (p = 0 ∧ Grammar.UnknownOpcode model (code 0)) →
        instruction = .bare .dw [.imm (wordOf (code 0) (code 1)) .word] 2) := by
  intro code p opcode addressing instruction
  let v := CodeView.ofBus m regs model cs ip
  by_cases hp : prefixBudget ≤ p
  · have hd : instruction = Decoded.wordData v := decode_of_prefixRun_ge hp
    have h0 : p ≠ 0 := fun h => absurd hp (by rw [h]; decide)
    rw [hd]
    exact ⟨iff_of_true rfl (Or.inl hp),
      iff_of_false (Decoded.wordData_ne_byteData v) fun h => h0 h.1, fun _ _ => rfl⟩
  · have h := outcome_decode (v := v) (Nat.not_le.mp hp) rfl
    have hopcode : p = 0 ∧ Grammar.UnknownOpcode model (code 0) ↔
        p = 0 ∧ Grammar.UnknownOpcode model opcode :=
      and_congr_right fun h0 => by simp only [opcode, h0]
    rw [hopcode]
    exact ⟨h.isData_iff.trans (or_iff_right hp).symm, h.eq_byteData_iff, h.eq_wordData⟩

end RealMode
