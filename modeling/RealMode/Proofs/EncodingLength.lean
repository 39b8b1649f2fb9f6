import RealMode.Proofs.InstructionGrammar
import RealMode.Proofs.SegmentedAccess

/-! # The length of an encoding

The length of an instruction counts just the bytes that determine it.
-/
namespace RealMode

theorem forall_lt_add {p : Nat → Prop} (a b : Nat) :
    (∀ j < a + b, p j) ↔ (∀ j < a, p j) ∧ ∀ j < b, p (a + j) := by
  constructor
  · intro h
    exact ⟨fun j hj => h j (by omega), fun j hj => h (a + j) (by omega)⟩
  · rintro ⟨hlow, hhigh⟩ j hj
    by_cases hja : j < a
    · exact hlow j hja
    · have hj' := hhigh (j - a) (by omega)
      rwa [Nat.add_sub_cancel' (Nat.not_lt.mp hja)] at hj'

theorem wordOfByte_inj {a b : UInt8} : wordOfByte a = wordOfByte b ↔ a = b := by
  constructor
  · intro h
    rw [← lowByte_wordOfByte a, h, lowByte_wordOfByte]
  · rintro rfl
    rfl

theorem wordOf_inj {a b c d : UInt8} : wordOf a b = wordOf c d ↔ a = c ∧ b = d := by
  constructor
  · intro h
    have hlow := congrArg lowByte h
    have hhigh := congrArg highByte h
    rw [lowByte_wordOf, lowByte_wordOf] at hlow
    rw [highByte_wordOf, highByte_wordOf] at hhigh
    exact ⟨hlow, hhigh⟩
  · rintro ⟨rfl, rfl⟩
    rfl

theorem lowByte_signExtend (b : UInt8) : lowByte (signExtend b) = b := by
  have hb := b.toNat_lt
  apply UInt8.toNat_inj.mp
  simp only [lowByte, signExtend, toNat_ofInt, UInt8.toNat_ofNat', Int.bmod_def]
  split <;> omega

theorem signExtend_inj {a b : UInt8} : signExtend a = signExtend b ↔ a = b := by
  constructor
  · intro h
    rw [← lowByte_signExtend a, h, lowByte_signExtend]
  · rintro rfl
    rfl

theorem ModRm.displacementSize_le (m : ModRm) : m.displacementSize ≤ 2 := by
  unfold displacementSize
  split
  next => split <;> omega
  all_goals omega

namespace CodeView

def withCode (v : CodeView) (code : Nat → UInt8) : CodeView := { v with code := code }

/-- The bytes from `i` on are those that `v` has, `n` of them. -/
def SameBytes (v : CodeView) (code : Nat → UInt8) (i n : Nat) : Prop :=
  ∀ j < n, code (i + j) = v.code (i + j)

variable (v : CodeView) (code : Nat → UInt8) (i : Nat)

@[simp] theorem regs_withCode : (v.withCode code).regs = v.regs := rfl

@[simp] theorem code_withCode : (v.withCode code).code = code := rfl

theorem sameBytes_zero : v.SameBytes code i 0 := fun _ hj => absurd hj (Nat.not_lt_zero _)

theorem SameBytes.mono {v : CodeView} {code : Nat → UInt8} {i m n : Nat}
    (h : v.SameBytes code i n) (hle : m ≤ n) : v.SameBytes code i m :=
  fun j hj => h j (Nat.lt_of_lt_of_le hj hle)

theorem sameBytes_one : v.SameBytes code i 1 ↔ code i = v.code i := by
  constructor
  · intro h
    exact h 0 (by omega)
  · intro h j hj
    obtain rfl : j = 0 := by omega
    exact h

theorem sameBytes_add (m n : Nat) :
    v.SameBytes code i (m + n) ↔ v.SameBytes code i m ∧ v.SameBytes code (i + m) n := by
  unfold SameBytes
  rw [forall_lt_add]
  simp only [Nat.add_assoc]

theorem word_eq_iff : (v.withCode code).word i = v.word i ↔ v.SameBytes code i 2 := by
  rw [sameBytes_add v code i 1 1, sameBytes_one, sameBytes_one]
  exact wordOf_inj

end CodeView

open CodeView

section Operands

variable (v : CodeView) (code : Nat → UInt8) (override : Option SegReg)

/-- An operand shows the bytes that it takes up, and no others. -/
theorem Field.operand_eq_iff (f : Field) (i : Nat) :
    f.operand (v.withCode code) override i = f.operand v override i ↔
      v.SameBytes code i f.size := by
  cases f with
  | fixed o => exact iff_of_true rfl (sameBytes_zero v code i)
  | imm w =>
    cases w with
    | byte =>
      simp only [operand, Operand.imm.injEq, and_true]
      exact wordOfByte_inj.trans (sameBytes_one v code i).symm
    | word =>
      simp only [operand, Operand.imm.injEq, and_true]
      exact word_eq_iff v code i
  | immSigned =>
    simp only [operand, Operand.imm.injEq, and_true]
    exact signExtend_inj.trans (sameBytes_one v code i).symm
  | rel8 =>
    simp only [operand, Operand.near.injEq]
    exact (UInt16.add_right_inj _).trans (signExtend_inj.trans (sameBytes_one v code i).symm)
  | rel16 =>
    simp only [operand, Operand.near.injEq]
    exact (UInt16.add_right_inj _).trans (word_eq_iff v code i)
  | far =>
    simp only [operand, Operand.far.injEq, size]
    rw [sameBytes_add v code i 2 2, word_eq_iff, word_eq_iff, and_comm]
  | moffs w =>
    simp only [operand, MemoryRef.direct, Operand.mem.injEq, MemoryRef.mk.injEq, regs_withCode,
      true_and, and_true, and_self, size]
    exact word_eq_iff v code i

theorem Field.operands_eq_iff (fs : List Field) (i : Nat) :
    operands (v.withCode code) override fs i = operands v override fs i ↔
      v.SameBytes code i (totalSize fs) := by
  induction fs generalizing i with
  | nil => exact iff_of_true rfl (sameBytes_zero v code i)
  | cons f fs ih =>
    have htotal : totalSize (f :: fs) = f.size + totalSize fs := rfl
    rw [operands, operands, List.cons.injEq, operand_eq_iff, ih, htotal, sameBytes_add]

variable (m : ModRm)

theorem Slot.ofModRm_eq_iff (w : Width) (i : Nat) :
    Operand.ofModRm v.regs m (displacement (v.withCode code) m i) w override =
        Operand.ofModRm v.regs m (displacement v m i) w override ↔
      v.SameBytes code i m.displacementSize := by
  by_cases hr : m.isRegister
  · have hmode : m.mode = 3 := by simpa [ModRm.isRegister] using hr
    have hsize : m.displacementSize = 0 := by simp only [ModRm.displacementSize, hmode]
    rw [hsize]
    refine iff_of_true ?_ (sameBytes_zero v code i)
    simp only [Operand.ofModRm, hr, ↓reduceIte]
  · simp only [Operand.ofModRm, hr, Bool.false_eq_true, ↓reduceIte, Operand.mem.injEq,
      MemoryRef.mk.injEq, true_and, and_true, UInt16.add_right_inj, displacement]
    have hsize : m.displacementSize = 0 ∨ m.displacementSize = 1 ∨ m.displacementSize = 2 := by
      have hle := m.displacementSize_le
      omega
    rcases hsize with hs | hs | hs
    · simp only [hs, and_self]
      exact iff_of_true trivial (sameBytes_zero v code i)
    · simp only [hs, and_self, lowByte_wordOfByte, code_withCode]
      exact signExtend_inj.trans (sameBytes_one v code i).symm
    · simp only [hs, and_self]
      exact word_eq_iff v code i

theorem Slot.operand_eq_iff (s : Slot) (i : Nat) :
    s.operand (v.withCode code) override m i = s.operand v override m i ↔
      v.SameBytes code i (s.size m) := by
  cases s with
  | reg w | seg => exact iff_of_true rfl (sameBytes_zero v code i)
  | rm w | mem w => exact ofModRm_eq_iff v code override m w i
  | field f => exact Field.operand_eq_iff v code override f i

theorem Slot.operands_eq_iff (ss : List Slot) (i : Nat) :
    operands (v.withCode code) override m ss i = operands v override m ss i ↔
      v.SameBytes code i (totalSize m ss) := by
  induction ss generalizing i with
  | nil => exact iff_of_true rfl (sameBytes_zero v code i)
  | cons s ss ih =>
    have htotal : totalSize m (s :: ss) = s.size m + totalSize m ss := rfl
    rw [operands, operands, List.cons.injEq, operand_eq_iff, ih, htotal, sameBytes_add]

end Operands

theorem Prefixes.le_of_scan_eq_some {code : Nat → UInt8} {budget : Nat} {p q : Prefixes}
    {i k : Nat} (h : scan code budget p i = some (q, k)) : i ≤ k := by
  induction budget generalizing p i with
  | zero => exact nomatch h
  | succ budget ih =>
    rw [scan] at h
    split at h
    next => exact Nat.le_of_succ_le (ih h)
    next =>
      obtain ⟨-, rfl⟩ : p = q ∧ i = k := by simpa using h
      exact Nat.le_refl i

/-- A scan depends on the bytes it has passed, and ends at the same place if no prefix is there. -/
theorem Prefixes.scan_eq_some_of_agree {code code' : Nat → UInt8} {budget : Nat} {p q : Prefixes}
    {i k : Nat} (h : scan code budget p i = some (q, k))
    (hagree : ∀ j, i ≤ j → j < k → code' j = code j) (hend : code' k ∉ Grammar.prefixBytes) :
    scan code' budget p i = some (q, k) := by
  induction budget generalizing p i with
  | zero => exact nomatch h
  | succ budget ih =>
    have hik := le_of_scan_eq_some h
    rw [scan] at h ⊢
    by_cases hk : i = k
    · subst hk
      rw [(add?_eq_none_iff p _).mpr hend]
      split at h
      next r hr => exact absurd (le_of_scan_eq_some h) (by omega)
      next => exact h
    · rw [hagree i (Nat.le_refl i) (by omega)]
      split at h
      next => exact ih h fun j hij hjk => hagree j (by omega) hjk
      next =>
        obtain ⟨-, rfl⟩ : p = q ∧ i = k := by simpa using h
        exact absurd rfl hk

def Row.form? (reg : Nat) : Row → Option Form
  | .modRm form => some form
  | .group forms => forms.getD reg none
  | .undefined | .plain _ _ => none

/-- A form with an operand in memory has no use for an addressing byte that names a register. -/
def Form.takes (form : Form) (m : ModRm) : Prop := ¬ (m.isRegister && form.slots.any Slot.isMem)

namespace CodeView

/-- Behind the prefixes `p` the opcode stands at byte `k`. -/
structure HasOpcode (v : CodeView) (p : Prefixes) (k : Nat) (row : Row) : Prop where
  scan : Prefixes.scan v.code prefixBudget .none 0 = some (p, k)
  known : ¬ (extendedOpcode (v.code k) && !v.model.extended)
  row : Row.ofOpcode (v.code k) = row

/-- The two shapes of an instruction: operands right behind the opcode, or behind an addressing
byte. -/
inductive Encodes (v : CodeView) : Decoded → Prop where
  | plain {p : Prefixes} {k : Nat} {op : Op} {fields : List Field}
      (h : v.HasOpcode p k (.plain op fields)) :
      v.Encodes (.instr p op (Field.operands v p.segment fields (k + 1))
        (k + 1 + Field.totalSize fields))
  | modRm {p : Prefixes} {k : Nat} {row : Row} {form : Form} {m : ModRm}
      (h : v.HasOpcode p k row) (hm : ModRm.ofByte (v.code (k + 1)) = m)
      (hform : row.form? m.reg = some form) (htakes : form.takes m) :
      v.Encodes (.instr p form.op (Slot.operands v p.segment m form.slots (k + 2))
        (k + 2 + Slot.totalSize m form.slots))

variable {v : CodeView}

theorem HasOpcode.first {b : UInt8} {row : Row} (hb : v.code 0 = b)
    (hfirst : Prefixes.none.add? b = none) (hcommon : extendedOpcode b = false)
    (hrow : Row.ofOpcode b = row) : v.HasOpcode .none 0 row := by
  constructor
  · simp only [prefixBudget, Prefixes.scan, hb, hfirst]
  · rw [hb, hcommon]
    exact Bool.false_ne_true
  · rw [hb]
    exact hrow

theorem HasOpcode.decode_eq {p : Prefixes} {k : Nat} {row : Row} (h : v.HasOpcode p k row) :
    decode v = .ofRow v p (v.code k) k row := by
  unfold decode
  rw [h.scan]
  dsimp only
  rw [if_neg h.known, h.row]

theorem HasOpcode.decode_eq_of_form {p : Prefixes} {k : Nat} {row : Row} {form : Form}
    (h : v.HasOpcode p k row)
    (hform : row.form? (ModRm.ofByte (v.code (k + 1))).reg = some form) :
    decode v = .ofForm v p (v.code k) (k + 1) form := by
  rw [h.decode_eq]
  cases row with
  | undefined | plain => exact nomatch hform
  | modRm f =>
    obtain rfl : f = form := Option.some.inj hform
    rfl
  | group forms =>
    have hget : forms.getD (ModRm.ofByte (v.code (k + 1))).reg none = some form := hform
    simp only [Decoded.ofRow, hget]

theorem Encodes.decode_eq {d : Decoded} (h : v.Encodes d) : decode v = d := by
  cases h with
  | plain h => exact h.decode_eq
  | modRm h hm hform htakes =>
    subst hm
    rw [h.decode_eq_of_form hform]
    exact if_neg htakes

/-- An instruction without prefixes whose opcode has an addressing byte. -/
theorem decode_of_form {a b : UInt8} {form : Form} (hb : v.code 0 = b) (ha : v.code 1 = a)
    (hfirst : Prefixes.none.add? b = none) (hcommon : extendedOpcode b = false)
    (hform : (Row.ofOpcode b).form? (ModRm.ofByte a).reg = some form)
    (htakes : form.takes (.ofByte a)) :
    decode v = .instr .none form.op (Slot.operands v none (.ofByte a) form.slots 2)
      (2 + Slot.totalSize (.ofByte a) form.slots) := by
  have hopcode : v.HasOpcode .none 0 (Row.ofOpcode b) := .first hb hfirst hcommon rfl
  exact (Encodes.modRm hopcode (congrArg ModRm.ofByte ha) hform htakes).decode_eq

theorem isData_data (consumed : Nat) (fault : DecodeFault) :
    (Decoded.data v consumed fault).instruction.op.isData = true := by
  unfold Decoded.data
  split <;> rfl

theorem encodes_decode (hcode : (decode v).instruction.op.isData = false) :
    v.Encodes (decode v) := by
  cases hscan : Prefixes.scan v.code prefixBudget .none 0 with
  | none =>
    simp only [decode, hscan, isData_data] at hcode
    exact nomatch hcode
  | some pk =>
    obtain ⟨p, k⟩ := pk
    by_cases hknown : extendedOpcode (v.code k) && !v.model.extended
    · simp only [decode, hscan, hknown, ↓reduceIte, isData_data] at hcode
      exact nomatch hcode
    · have hopcode : v.HasOpcode p k (Row.ofOpcode (v.code k)) := ⟨hscan, hknown, rfl⟩
      cases hform : (Row.ofOpcode (v.code k)).form? (ModRm.ofByte (v.code (k + 1))).reg with
      | some form =>
        have hd := hopcode.decode_eq_of_form hform
        by_cases htakes : form.takes (ModRm.ofByte (v.code (k + 1)))
        · have hencodes := Encodes.modRm hopcode rfl hform htakes
          rw [hencodes.decode_eq]
          exact hencodes
        · rw [hd, Decoded.ofForm, if_pos (Decidable.of_not_not htakes), isData_data] at hcode
          exact nomatch hcode
      | none =>
        rw [hopcode.decode_eq] at hcode ⊢
        generalize Row.ofOpcode (v.code k) = row at hopcode hform hcode
        cases row with
        | undefined =>
          rw [Decoded.ofRow, isData_data] at hcode
          exact nomatch hcode
        | plain op fields => exact .plain hopcode
        | modRm form => exact absurd hform (Option.some_ne_none form)
        | group forms =>
          have hget : forms.getD (ModRm.ofByte (v.code (k + 1))).reg none = none := hform
          simp only [Decoded.ofRow, hget, isData_data] at hcode
          exact nomatch hcode

section OtherBytes

variable {w : CodeView} {code : Nat → UInt8} {p : Prefixes} {k : Nat} {row : Row} {d : Decoded}

theorem HasOpcode.not_mem_prefixBytes (h : v.HasOpcode p k row) :
    v.code k ∉ Grammar.prefixBytes := (Prefixes.of_scan_eq_some h.scan).2.2

theorem HasOpcode.replace (h : v.HasOpcode p k row) (hagree : v.SameBytes w.code 0 k)
    (hend : w.code k ∉ Grammar.prefixBytes)
    (hknown : ¬ (extendedOpcode (w.code k) && !w.model.extended)) :
    w.HasOpcode p k (Row.ofOpcode (w.code k)) := by
  have hbyte (j : Nat) (hj : j < k) : w.code j = v.code j := by simpa using hagree j hj
  exact ⟨Prefixes.scan_eq_some_of_agree h.scan (fun j _ hj => hbyte j hj) hend, hknown, rfl⟩

theorem HasOpcode.of_sameBytes (h : v.HasOpcode p k row) (hmodel : w.model = v.model)
    (hagree : v.SameBytes w.code 0 (k + 1)) : w.HasOpcode p k row := by
  rw [sameBytes_add, Nat.zero_add, sameBytes_one] at hagree
  obtain ⟨hinitiales, hopcode⟩ := hagree
  have hreplaced := h.replace hinitiales (hopcode ▸ h.not_mem_prefixBytes)
    (by rw [hopcode, hmodel]; exact h.known)
  rwa [hopcode, h.row] at hreplaced

/-- The bytes that the length counts decide for any processor of the model how many they are. -/
theorem Encodes.exists_of_sameBytes (h : v.Encodes d) (hmodel : w.model = v.model)
    (hagree : v.SameBytes w.code 0 d.instruction.length) :
    ∃ e, w.Encodes e ∧ e.instruction.length = d.instruction.length := by
  cases h with
  | @plain p k op fields h =>
    have hopcode := h.of_sameBytes hmodel (hagree.mono (Nat.le_add_right _ _))
    exact ⟨_, .plain hopcode, rfl⟩
  | @modRm p k row form m h hm hform htakes =>
    have hlength : k + 2 ≤ k + 2 + Slot.totalSize m form.slots := Nat.le_add_right _ _
    have hopcode := h.of_sameBytes hmodel (hagree.mono (Nat.le_of_succ_le hlength))
    have haddressing : w.code (k + 1) = v.code (k + 1) := by
      simpa using hagree (k + 1) hlength
    exact ⟨_, .modRm hopcode ((congrArg _ haddressing).trans hm) hform htakes, rfl⟩

/-- Only the bytes that the length counts decide what an instruction is. -/
theorem Encodes.withCode (h : v.Encodes d) (hagree : v.SameBytes code 0 d.instruction.length) :
    (v.withCode code).Encodes d := by
  cases h with
  | @plain p k op fields h =>
    rw [show (Decoded.instr p op _ _).instruction.length = k + 1 + Field.totalSize fields from rfl,
      sameBytes_add, Nat.zero_add] at hagree
    obtain ⟨hopcode, hfields⟩ := hagree
    rw [← (Field.operands_eq_iff v code p.segment fields (k + 1)).mpr hfields]
    exact .plain (h.of_sameBytes rfl hopcode)
  | @modRm p k row form m h hm hform htakes =>
    rw [show (Decoded.instr p form.op _ _).instruction.length =
        k + 1 + 1 + Slot.totalSize m form.slots from rfl,
      sameBytes_add, sameBytes_add, Nat.zero_add, Nat.zero_add, sameBytes_one] at hagree
    obtain ⟨⟨hopcode, haddressing⟩, hslots⟩ := hagree
    rw [← (Slot.operands_eq_iff v code p.segment m form.slots (k + 2)).mpr hslots]
    exact .modRm (h.of_sameBytes rfl hopcode) ((congrArg _ haddressing).trans hm) hform htakes

end OtherBytes
end CodeView

/-! ## How long encodings are -/

namespace Slot

def isAddressed : Slot → Bool
  | rm _ | mem _ => true
  | reg _ | seg | field _ => false

def largestSize : Slot → Nat
  | reg _ | seg => 0
  | rm _ | mem _ => 2
  | field f => f.size

def largestTotalSize (ss : List Slot) : Nat := ss.foldr (fun s n => largestSize s + n) 0

theorem size_le_largestSize (m : ModRm) (s : Slot) : s.size m ≤ s.largestSize := by
  cases s with
  | rm w | mem w => exact m.displacementSize_le
  | _ => exact Nat.le_refl _

theorem totalSize_le_largestTotalSize (m : ModRm) (ss : List Slot) :
    totalSize m ss ≤ largestTotalSize ss := by
  induction ss with
  | nil => exact Nat.le_refl 0
  | cons s ss ih => exact Nat.add_le_add (size_le_largestSize m s) ih

theorem displacementSize_le_totalSize (m : ModRm) {ss : List Slot} (h : ss.any isAddressed) :
    m.displacementSize ≤ totalSize m ss := by
  induction ss with
  | nil => exact nomatch h
  | cons s ss ih =>
    have htotal : totalSize m (s :: ss) = s.size m + totalSize m ss := rfl
    rw [List.any_cons, Bool.or_eq_true] at h
    rw [htotal]
    rcases h with hs | hss
    · have hsize : s.size m = m.displacementSize := by
        cases s with
        | rm w | mem w => rfl
        | _ => exact nomatch hs
      omega
    · have := ih hss
      omega

end Slot

/-- At most four bytes follow the addressing byte, and it has a displacement to tell of. -/
def Form.compact (form : Form) : Bool :=
  form.slots.any Slot.isAddressed && Slot.largestTotalSize form.slots ≤ 4

namespace Row

def compact : Row → Bool
  | undefined => true
  | plain _ fields => Field.totalSize fields ≤ 4
  | modRm form => form.compact
  | group forms => forms.all fun form => form.all Form.compact

theorem compact_opcodeMap : opcodeMap.toList.all compact := by decide +kernel

theorem compact_ofOpcode (b : UInt8) : (ofOpcode b).compact :=
  ofOpcode_of_all compact_opcodeMap rfl b

theorem cases_of_form? {row : Row} {reg : Nat} {form : Form} (h : row.form? reg = some form) :
    row = .modRm form ∨ ∃ forms, row = .group forms ∧ some form ∈ forms := by
  cases row with
  | undefined | plain => exact nomatch h
  | modRm f => exact .inl (congrArg _ (Option.some.inj h))
  | group forms => exact .inr ⟨forms, rfl, mem_of_getD_eq_some h⟩

theorem compact_of_form? {row : Row} {reg : Nat} {form : Form} (h : row.compact)
    (hform : row.form? reg = some form) : form.compact := by
  rcases cases_of_form? hform with rfl | ⟨forms, rfl, hmem⟩
  · exact h
  · exact List.all_eq_true.mp h _ hmem

end Row

theorem ModRm.exists_displaced (m : UInt8) :
    ∃ b, (ofByte b).reg = (ofByte m).reg ∧ (ofByte b).isRegister = false ∧
      (ofByte b).displacementSize = 2 := by
  have hm := m.toNat_lt
  have hb : (UInt8.ofNat (128 + m.toNat % 64)).toNat = 128 + m.toNat % 64 :=
    UInt8.toNat_ofNat_of_lt (show 128 + m.toNat % 64 < 256 by omega)
  have hmode : (ofByte (UInt8.ofNat (128 + m.toNat % 64))).mode = 2 := by
    simp only [ofByte, hb]
    omega
  refine ⟨UInt8.ofNat (128 + m.toNat % 64), ?_, ?_, ?_⟩
  · simp only [ofByte, hb]
    omega
  · simp only [isRegister, hmode]
    rfl
  · simp only [displacementSize, hmode]

namespace CodeView

variable {v : CodeView}

theorem HasOpcode.lt {p : Prefixes} {k : Nat} {row : Row} (h : v.HasOpcode p k row) : k < 15 := by
  have hk := (Prefixes.of_scan_eq_some h.scan).1
  rwa [Nat.zero_add] at hk

theorem HasOpcode.compact {p : Prefixes} {k : Nat} {row : Row} (h : v.HasOpcode p k row) :
    row.compact := h.row ▸ Row.compact_ofOpcode _

theorem HasOpcode.isCode {p : Prefixes} {k : Nat} {row : Row} (h : v.HasOpcode p k row) :
    row.isCode := h.row ▸ Row.isCode_ofOpcode _

theorem Encodes.length_le {d : Decoded} (h : v.Encodes d) : d.instruction.length ≤ 20 := by
  cases h with
  | @plain p k op fields h =>
    have hk := h.lt
    have hsize : Field.totalSize fields ≤ 4 := by simpa [Row.compact] using h.compact
    show k + 1 + Field.totalSize fields ≤ 20
    omega
  | @modRm p k row form m h hm hform htakes =>
    have hk := h.lt
    have hcompact := Row.compact_of_form? h.compact hform
    simp only [Form.compact, Bool.and_eq_true, decide_eq_true_eq] at hcompact
    have hsize := Slot.totalSize_le_largestTotalSize m form.slots
    show k + 2 + Slot.totalSize m form.slots ≤ 20
    omega

theorem Encodes.length_pos {d : Decoded} (h : v.Encodes d) : 0 < d.instruction.length := by
  cases h with
  | @plain p k op fields h => exact Nat.lt_of_lt_of_le (Nat.succ_pos k) (Nat.le_add_right _ _)
  | @modRm p k row form m h => exact Nat.lt_of_lt_of_le (Nat.succ_pos _) (Nat.le_add_right _ _)

/-- If the last bytes are those of operands, any change of the last one changes an operand. -/
theorem not_sameBytes_of_last {code : Nat → UInt8} {i n : Nat} (hn : 0 < n)
    (hlast : code (i + n - 1) ≠ v.code (i + n - 1)) : ¬ v.SameBytes code i n := by
  intro h
  have hbyte := h (n - 1) (by omega)
  rw [show i + (n - 1) = i + n - 1 by omega] at hbyte
  exact hlast hbyte

/-- Some change of the last byte shows, whatever bytes follow. -/
def TellsLast (v : CodeView) (d : Decoded) : Prop :=
  ∃ b, ∀ code, v.SameBytes code 0 (d.instruction.length - 1) →
    code (d.instruction.length - 1) = b → (decode (v.withCode code)).instruction ≠ d.instruction

section LastByte

variable {p : Prefixes} {k : Nat} {row : Row} {op : Op} {fields : List Field} {form : Form}
  {m : ModRm}

/-- Where the last byte is the opcode, there is one that no instruction has. -/
theorem HasOpcode.tellsLast_of_opcode (h : v.HasOpcode p k (.plain op fields))
    (hsize : Field.totalSize fields = 0) :
    v.TellsLast (.instr p op (Field.operands v p.segment fields (k + 1))
      (k + 1 + Field.totalSize fields)) := by
  show ∃ b, ∀ code, v.SameBytes code 0 (k + 1 + Field.totalSize fields - 1) →
    code (k + 1 + Field.totalSize fields - 1) = b → _
  refine ⟨0x0F, fun code hagree hlast heq => ?_⟩
  rw [hsize] at hagree hlast
  have hlast : code k = 0x0F := hlast
  have hbase : extendedOpcode 0x0F = false := by decide
  have hnone : Row.ofOpcode 0x0F = .undefined := by decide +kernel
  have hopcode := h.replace (w := v.withCode code) hagree (by rw [code_withCode, hlast]; decide)
    (by simp [hlast, hbase])
  rw [code_withCode, hlast, hnone] at hopcode
  have hdata : (decode (v.withCode code)).instruction.op.isData := by
    rw [hopcode.decode_eq]
    exact isData_data _ _
  have hop : op.isData = false := by simpa [Row.isCode] using h.isCode
  rw [heq] at hdata
  exact Bool.noConfusion (hop.symm.trans hdata)

theorem HasOpcode.tellsLast_of_fields (h : v.HasOpcode p k (.plain op fields))
    (hsize : Field.totalSize fields ≠ 0) :
    v.TellsLast (.instr p op (Field.operands v p.segment fields (k + 1))
      (k + 1 + Field.totalSize fields)) := by
  show ∃ b, ∀ code, v.SameBytes code 0 (k + 1 + Field.totalSize fields - 1) →
    code (k + 1 + Field.totalSize fields - 1) = b → _
  refine ⟨v.code (k + 1 + Field.totalSize fields - 1) + 1, fun code hagree hlast heq => ?_⟩
  have hopcode := h.of_sameBytes (w := v.withCode code) rfl (hagree.mono (by omega))
  rw [(Encodes.plain hopcode).decode_eq] at heq
  have hsame := (Field.operands_eq_iff v code p.segment fields (k + 1)).mp
    (congrArg Instruction.operands heq)
  refine not_sameBytes_of_last (Nat.pos_of_ne_zero hsize) ?_ hsame
  rw [hlast]
  simp

theorem HasOpcode.tellsLast_of_addressing (h : v.HasOpcode p k row)
    (hm : ModRm.ofByte (v.code (k + 1)) = m) (hform : row.form? m.reg = some form)
    (hsize : Slot.totalSize m form.slots = 0) :
    v.TellsLast (.instr p form.op (Slot.operands v p.segment m form.slots (k + 2))
      (k + 2 + Slot.totalSize m form.slots)) := by
  show ∃ b, ∀ code, v.SameBytes code 0 (k + 2 + Slot.totalSize m form.slots - 1) →
    code (k + 2 + Slot.totalSize m form.slots - 1) = b → _
  obtain ⟨b, hreg, hmem, hdisplacement⟩ := ModRm.exists_displaced (v.code (k + 1))
  rw [hm] at hreg
  refine ⟨b, fun code hagree hlast heq => ?_⟩
  rw [hsize] at hagree hlast
  have hbyte : (v.withCode code).code (k + 1) = b := hlast
  have hopcode := h.of_sameBytes (w := v.withCode code) rfl hagree
  have htakes : form.takes (ModRm.ofByte b) := by simp [Form.takes, hmem]
  have hencodes := Encodes.modRm hopcode (congrArg _ hbyte) (hreg ▸ hform) htakes
  have haddressed : form.slots.any Slot.isAddressed := by
    have hcompact := Row.compact_of_form? h.compact hform
    simp only [Form.compact, Bool.and_eq_true] at hcompact
    exact hcompact.1
  have hgrown := Slot.displacementSize_le_totalSize (ModRm.ofByte b) haddressed
  rw [hencodes.decode_eq] at heq
  have hlength : k + 2 + Slot.totalSize (ModRm.ofByte b) form.slots =
      k + 2 + Slot.totalSize m form.slots := congrArg Instruction.length heq
  omega

theorem HasOpcode.tellsLast_of_slots (h : v.HasOpcode p k row)
    (hm : ModRm.ofByte (v.code (k + 1)) = m) (hform : row.form? m.reg = some form)
    (htakes : form.takes m) (hsize : Slot.totalSize m form.slots ≠ 0) :
    v.TellsLast (.instr p form.op (Slot.operands v p.segment m form.slots (k + 2))
      (k + 2 + Slot.totalSize m form.slots)) := by
  show ∃ b, ∀ code, v.SameBytes code 0 (k + 2 + Slot.totalSize m form.slots - 1) →
    code (k + 2 + Slot.totalSize m form.slots - 1) = b → _
  refine ⟨v.code (k + 2 + Slot.totalSize m form.slots - 1) + 1, fun code hagree hlast heq => ?_⟩
  have hopcode := h.of_sameBytes (w := v.withCode code) rfl (hagree.mono (by omega))
  have haddressing : (v.withCode code).code (k + 1) = v.code (k + 1) := by
    simpa using hagree (k + 1) (by omega)
  have hencodes := Encodes.modRm hopcode ((congrArg _ haddressing).trans hm) hform htakes
  rw [hencodes.decode_eq] at heq
  have hsame := (Slot.operands_eq_iff v code p.segment m form.slots (k + 2)).mp
    (congrArg Instruction.operands heq)
  refine not_sameBytes_of_last (Nat.pos_of_ne_zero hsize) ?_ hsame
  rw [hlast]
  simp

end LastByte

theorem Encodes.tellsLast {d : Decoded} (h : v.Encodes d) : v.TellsLast d := by
  cases h with
  | @plain p k op fields h =>
    by_cases hsize : Field.totalSize fields = 0
    · exact h.tellsLast_of_opcode hsize
    · exact h.tellsLast_of_fields hsize
  | @modRm p k row form m h hm hform htakes =>
    by_cases hsize : Slot.totalSize m form.slots = 0
    · exact h.tellsLast_of_addressing hm hform hsize
    · exact h.tellsLast_of_slots hm hform htakes hsize

end CodeView

theorem length_decode_of_isData {v : CodeView} (hdata : (decode v).instruction.op.isData) :
    0 < (decode v).instruction.length ∧ (decode v).instruction.length ≤ 2 := by
  have hword : 0 < (Decoded.wordData v).length ∧ (Decoded.wordData v).length ≤ 2 :=
    ⟨Nat.two_pos, Nat.le_refl 2⟩
  by_cases hrun : prefixBudget ≤ Grammar.prefixRun v.code
  · rw [decode_of_prefixRun_ge hrun]
    exact hword
  · rcases outcome_decode (Nat.not_le.mp hrun) rfl with ⟨-, hd⟩ | ⟨-, -, hd⟩ | ⟨-, -, hcode⟩
    · rw [hd]
      split
      next => exact ⟨Nat.one_pos, show 1 ≤ 2 by decide⟩
      next => exact hword
    · rw [hd]
      exact hword
    · rw [hcode] at hdata
      exact nomatch hdata

theorem length_decode (v : CodeView) :
    0 < (decode v).instruction.length ∧ (decode v).instruction.length ≤ 20 := by
  cases hcode : (decode v).instruction.op.isData with
  | true =>
    have hlength := length_decode_of_isData hcode
    omega
  | false =>
    have hencodes := CodeView.encodes_decode hcode
    exact ⟨hencodes.length_pos, hencodes.length_le⟩

section Memory

variable {M : Type} [Bus M] (m k : M) (regs : Registers) (model : Model) (cs ip : UInt16)

def Bus.Agree (n : Nat) : Prop :=
  ∀ i < n, getByte k cs (ip + UInt16.ofNat i) = getByte m cs (ip + UInt16.ofNat i)

/-- The bytes that the length of the instruction at an address counts. -/
def encoding : List UInt8 :=
  (List.range (decodeAt m regs model cs ip).instruction.length).map fun i =>
    Bus.getByte m cs (ip + UInt16.ofNat i)

variable {m k regs model cs ip}

theorem sameBytes_ofBus_iff {n : Nat} :
    (CodeView.ofBus m regs model cs ip).SameBytes (CodeView.ofBus k regs model cs ip).code 0 n ↔
      Bus.Agree m k cs ip n := by
  simp only [CodeView.SameBytes, Nat.zero_add]
  rfl

theorem decodeAt_of_agree (hcode : (decodeAt m regs model cs ip).instruction.op.isData = false)
    (hagree : Bus.Agree m k cs ip (decodeAt m regs model cs ip).instruction.length) :
    decodeAt k regs model cs ip = decodeAt m regs model cs ip := by
  have hencodes := CodeView.encodes_decode hcode
  exact (hencodes.withCode (sameBytes_ofBus_iff.mpr hagree)).decode_eq

theorem encoding_eq_of_prefix {regs' : Registers} {cs' ip' : UInt16}
    (hcode : (decodeAt m regs model cs ip).instruction.op.isData = false)
    (hinitial : encoding m regs model cs ip <+: encoding k regs' model cs' ip') :
    encoding m regs model cs ip = encoding k regs' model cs' ip' := by
  have hencodes := CodeView.encodes_decode hcode
  let w := CodeView.ofBus k regs' model cs' ip'
  have hagree : (CodeView.ofBus m regs model cs ip).SameBytes w.code 0
      (decodeAt m regs model cs ip).instruction.length := by
    intro j hj
    have hbytes := hinitial.getElem (i := j) (by simpa [encoding] using hj)
    simp only [encoding, List.getElem_map, List.getElem_range] at hbytes
    rw [Nat.zero_add]
    exact hbytes.symm
  obtain ⟨e, he, hlength⟩ := hencodes.exists_of_sameBytes (w := w) rfl hagree
  apply hinitial.eq_of_length
  simp only [encoding, List.length_map, List.length_range]
  have hk : decodeAt k regs' model cs' ip' = e := he.decode_eq
  rw [hk, hlength]
  rfl

/-- With the telling byte written in the place of the last one, another instruction is decoded. -/
theorem exists_decodeAt_ne [LawfulMemory M]
    (hcode : (decodeAt m regs model cs ip).instruction.op.isData = false) {n : Nat}
    (hn : n < (decodeAt m regs model cs ip).instruction.length) :
    ∃ k : M, Bus.Agree m k cs ip n ∧
      (decodeAt k regs model cs ip).instruction ≠ (decodeAt m regs model cs ip).instruction := by
  have hencodes := CodeView.encodes_decode hcode
  have hle := hencodes.length_le
  obtain ⟨b, hb⟩ := hencodes.tellsLast
  generalize hlength : (decodeAt m regs model cs ip).instruction.length = length at hn
  rw [show (decode (CodeView.ofBus m regs model cs ip)).instruction.length = length from hlength]
    at hb hle
  let k := Bus.setByte m cs (ip + UInt16.ofNat (length - 1)) b
  have hagree : Bus.Agree m k cs ip (length - 1) := by
    intro i hi
    rw [Bus.getByte_setByte, if_neg]
    rw [offset_add_inj (by omega) (by omega)]
    omega
  have hlast : Bus.getByte k cs (ip + UInt16.ofNat (length - 1)) = b := by
    rw [Bus.getByte_setByte, if_pos rfl]
  refine ⟨k, fun i hi => hagree i (by omega), ?_⟩
  exact hb (CodeView.ofBus k regs model cs ip).code (sameBytes_ofBus_iff.mpr hagree) hlast

end Memory

/-- An instruction takes up one to twenty bytes. Its length is the least number of bytes that
determine it, and its encoding is no proper prefix of another one. -/
theorem length_decodeAt_determines {M : Type} [Bus M] [LawfulMemory M] (m : M) (regs : Registers)
    (model : Model) (cs ip : UInt16) :
    let i := (decodeAt m regs model cs ip).instruction
    (1 ≤ i.length ∧ i.length ≤ 20) ∧
      (i.op.isData = false →
        (∀ n, i.length ≤ n ↔
          ∀ k : M, Bus.Agree m k cs ip n → (decodeAt k regs model cs ip).instruction = i) ∧
        ∀ (k : M) (regs' : Registers) (cs' ip' : UInt16),
          encoding m regs model cs ip <+: encoding k regs' model cs' ip' →
          encoding m regs model cs ip = encoding k regs' model cs' ip') := by
  intro i
  refine ⟨length_decode _, fun hcode => ⟨fun n => ⟨fun hn k hagree => ?_, fun hall => ?_⟩,
    fun k regs' cs' ip' hinitial => encoding_eq_of_prefix hcode hinitial⟩⟩
  · exact congrArg Decoded.instruction (decodeAt_of_agree hcode fun j hj =>
      hagree j (Nat.lt_of_lt_of_le hj hn))
  · apply Nat.le_of_not_lt
    intro hn
    obtain ⟨k, hagree, hne⟩ := exists_decodeAt_ne hcode hn
    exact hne (hall k hagree)

/-- A blank memory but for a prefix at the last offset but one of a segment. -/
def overriding : Ram := Bus.setByte .blank 0xF000 0xFFFE 0x2E

theorem decodeAt_overriding :
    (decodeAt overriding .zero .i8086 0xF000 0xFFFE).instruction =
      ⟨.alu .add, [.mem ⟨.cs, 0, 0, .bxSi, 0, true⟩ .byte, .reg8 .al], none, false, some .cs, 3⟩ := by
  have hbyte : (fun i => Bus.getByte overriding 0xF000 (0xFFFE + UInt16.ofNat i)) = fun i =>
      if 0xFFFE + UInt16.ofNat i = (0xFFFE : UInt16) then 0x2E else 0 := by
    funext i
    rw [overriding, Bus.getByte_setByte, Bus.getByte]
    split
    next => rfl
    next => exact Ram.read_blank (physical_lt _ _)
  have hview : CodeView.ofBus overriding .zero .i8086 0xF000 0xFFFE = ⟨_, 0xFFFE, .zero, .i8086⟩ :=
    congrArg (fun code => CodeView.mk code 0xFFFE .zero .i8086) hbyte
  rw [decodeAt, hview]
  decide +kernel

/-- The three bytes wrap around in the segment. -/
theorem overriding_determined :
    let i := (decodeAt overriding .zero .i8086 0xF000 0xFFFE).instruction
    i.op.isData = false ∧ ∀ n, 3 ≤ n ↔ ∀ k : Ram, Bus.Agree overriding k 0xF000 0xFFFE n →
      (decodeAt k .zero .i8086 0xF000 0xFFFE).instruction = i := by
  have hcode : (decodeAt overriding .zero .i8086 0xF000 0xFFFE).instruction.op.isData = false := by
    rw [decodeAt_overriding]
    rfl
  have hall := ((length_decodeAt_determines overriding .zero .i8086 0xF000 0xFFFE).2 hcode).1
  have hlength : (decodeAt overriding .zero .i8086 0xF000 0xFFFE).instruction.length = 3 := by
    rw [decodeAt_overriding]
  rw [hlength] at hall
  exact ⟨hcode, hall⟩

end RealMode
