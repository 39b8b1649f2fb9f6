import Mathlib.Algebra.Ring.Nat
import RealMode.Proofs.EncodingLength

/-! # Effective addresses -/
namespace RealMode

namespace ModRm

variable (m : ModRm)

/-- An address without registers has the field that would name BP alone. -/
def isDirect : Bool := m.mode == 0 && m.rm == 6

def addends : List Reg16 :=
  match m.rm with
  | 0 => [.bx, .si]
  | 1 => [.bx, .di]
  | 2 => [.bp, .si]
  | 3 => [.bp, .di]
  | 4 => [.si]
  | 5 => [.di]
  | 6 => if m.isDirect then [] else [.bp]
  | _ => [.bx]

/-- The bytes from `i` on are the displacement `d`, as the mode has it. -/
inductive Displaces (code : Nat → UInt8) (i : Nat) (d : Int) : Prop
  | absent (hmode : m.mode = 0) (hdirect : m.isDirect = false) (hd : d = 0)
  | byte (hmode : m.mode = 1) (hlow : -128 ≤ d) (hhigh : d < 128) (hd : code i = UInt8.ofInt d)
  | word (hmode : m.mode = 2) (hd : wordOf (code i) (code (i + 1)) = UInt16.ofInt d)
  | address (hdirect : m.isDirect = true)
      (hd : wordOf (code i) (code (i + 1)) = UInt16.ofInt d)

def reference (r : Registers) (d : UInt16) (override : Option SegReg) : MemoryRef :=
  let base := AddressBase.ofModRm m
  let segReg := override.getD base.defaultSegment
  ⟨segReg, r.getSeg segReg, base.sum r + d, base, d, override.isSome⟩

end ModRm

/-- The reference lies at the sum of registers and displacement, in the segment of the override,
or else in that of the stack if BP is added, or else in that of the data. -/
structure MemoryRef.Located (x : MemoryRef) (r : Registers) (override : Option SegReg) (m : ModRm)
    (d : Int) : Prop where
  offset : (x.offset.toNat : Int) = ((m.addends.map fun a => (r.get a).toNat).sum + d) % 65536
  segReg : x.segReg = override.getD (if .bp ∈ m.addends then .ss else .ds)
  segment : x.segment = r.getSeg x.segReg

namespace ModRm

variable {m n : ModRm} {code : Nat → UInt8} {i : Nat} {d : Int}

theorem isDirect_iff : m.isDirect = true ↔ m.mode = 0 ∧ m.rm = 6 := by
  simp only [isDirect, Bool.and_eq_true, beq_iff_eq]

theorem mode_ofByte_lt (b : UInt8) : (ofByte b).mode < 4 := by
  have hb := b.toNat_lt
  show b.toNat / 64 < 4
  omega

theorem ofInt_bmod (b : UInt8) : UInt8.ofInt (Int.bmod b.toNat 256) = b := by
  have hb := b.toNat_lt
  apply UInt8.toNat_inj.mp
  rw [toNat_byte_ofInt, Int.bmod_def]
  split <;> omega

theorem ofInt_toNat (w : UInt16) : UInt16.ofInt w.toNat = w := by
  have hw := w.toNat_lt
  apply UInt16.toNat_inj.mp
  rw [toNat_ofInt]
  omega

theorem exists_displaces (hmode : m.mode < 3) : ∃ d, m.Displaces code i d := by
  cases hdirect : m.isDirect with
  | true => exact ⟨_, .address hdirect (ofInt_toNat _).symm⟩
  | false =>
    obtain h | h | h : m.mode = 0 ∨ m.mode = 1 ∨ m.mode = 2 := by omega
    · exact ⟨0, .absent h hdirect rfl⟩
    · refine ⟨Int.bmod (code i).toNat 256, .byte h ?_ ?_ (ofInt_bmod _).symm⟩
      · exact Int.le_bmod (by decide)
      · exact Int.bmod_lt (by decide)
    · exact ⟨_, .word h (ofInt_toNat _).symm⟩

theorem signExtend_ofInt (hlow : -128 ≤ d) (hhigh : d < 128) :
    signExtend (UInt8.ofInt d) = UInt16.ofInt d := by
  apply UInt16.toNat_inj.mp
  rw [signExtend, toNat_ofInt, toNat_ofInt, toNat_byte_ofInt, Int.bmod_def]
  split <;> omega

theorem Displaces.word_of_isDirect {v : CodeView} (h : m.Displaces v.code i d)
    (hdirect : m.isDirect) : v.word i = UInt16.ofInt d := by
  have hmode := (isDirect_iff.mp hdirect).1
  cases h with
  | absent _ hregisters _ => exact absurd hdirect (Bool.eq_false_iff.mp hregisters)
  | byte hone => omega
  | word htwo => omega
  | address _ hd => exact hd

/-- The decoder takes the number of bytes from the mode in two places, once to read them and once
to extend the sign. -/
theorem Displaces.operand_eq {v : CodeView} (h : m.Displaces v.code i d) (w : Width)
    (override : Option SegReg) :
    Operand.ofModRm v.regs m (Slot.displacement v m i) w override =
      .mem (m.reference v.regs (UInt16.ofInt d) override) w := by
  cases h with
  | absent hmode hdirect hd =>
    have hrm : m.rm ≠ 6 := fun hrm => by simp [isDirect, hmode, hrm] at hdirect
    simp [Operand.ofModRm, isRegister, displacementSize, reference, hmode, hrm, hd,
      show UInt16.ofInt 0 = 0 from rfl]
  | byte hmode hlow hhigh hd =>
    simp [Operand.ofModRm, isRegister, Slot.displacement, displacementSize, reference, hmode, hd,
      signExtend_ofInt hlow hhigh]
  | word hmode hd =>
    simp [Operand.ofModRm, isRegister, Slot.displacement, displacementSize, reference, hmode,
      CodeView.word, hd]
  | address hdirect hd =>
    obtain ⟨hmode, hrm⟩ := isDirect_iff.mp hdirect
    simp [Operand.ofModRm, isRegister, Slot.displacement, displacementSize, reference, hmode, hrm,
      CodeView.word, hd]

end ModRm

namespace AddressBase

def addends : AddressBase → List Reg16
  | bxSi => [.bx, .si]
  | bxDi => [.bx, .di]
  | bpSi => [.bp, .si]
  | bpDi => [.bp, .di]
  | si => [.si]
  | di => [.di]
  | bp => [.bp]
  | bx => [.bx]
  | direct => []

theorem addends_ofModRm (m : ModRm) : (ofModRm m).addends = m.addends := by
  by_cases h6 : m.rm = 6
  · have hdirect : m.isDirect = true ↔ m.mode = 0 :=
      ModRm.isDirect_iff.trans (and_iff_left h6)
    simp only [ofModRm, ModRm.addends, h6, hdirect]
    split <;> rfl
  · unfold ofModRm ModRm.addends
    split
    case h_7 hrm => exact absurd hrm h6
    all_goals simp only [addends, *]

theorem toNat_sum (base : AddressBase) (r : Registers) :
    (base.sum r).toNat = (base.addends.map fun a => (r.get a).toNat).sum % 65536 := by
  cases base <;> simp [sum, addends, Registers.get]

theorem defaultSegment_eq (base : AddressBase) :
    base.defaultSegment = if .bp ∈ base.addends then .ss else .ds := by
  cases base <;> rfl

end AddressBase

theorem ModRm.located_reference (m : ModRm) (r : Registers) (override : Option SegReg) (d : Int) :
    (m.reference r (UInt16.ofInt d) override).Located r override m d := by
  refine ⟨?_, ?_, rfl⟩
  · have hsum := (AddressBase.ofModRm m).toNat_sum r
    rw [AddressBase.addends_ofModRm] at hsum
    simp only [reference, UInt16.toNat_add, toNat_ofInt, hsum]
    omega
  · rw [← AddressBase.addends_ofModRm, ← AddressBase.defaultSegment_eq]
    rfl

section Rows

/-- The width of the operand that the addressing byte names. -/
def Slot.addressed? : Slot → Option Width
  | rm w | mem w => some w
  | reg _ | seg | field _ => none

def Form.addressedWidth (form : Form) : Width := (form.slots.findSome? Slot.addressed?).getD .word

def Field.isMemory : Field → Bool
  | fixed o => o.isMemory
  | moffs _ => true
  | imm _ | immSigned | rel8 | rel16 | far => false

/-- Neither named by the mode of the addressing byte nor in memory. -/
def Slot.isApart : Slot → Bool
  | reg _ | seg => true
  | rm _ | mem _ => false
  | field f => !f.isMemory

/-- Registers may come before the operand that the addressing byte names, and no second operand in
memory behind it. -/
def Slot.addressOnce : List Slot → Bool
  | [] | field _ :: _ => false
  | reg _ :: ss | seg :: ss => addressOnce ss
  | rm _ :: ss | mem _ :: ss => ss.all isApart

def Row.addressesOnce : Row → Bool
  | undefined | plain _ _ => true
  | modRm form => Slot.addressOnce form.slots
  | group forms => forms.all fun form => form.all fun f => Slot.addressOnce f.slots

theorem Row.addressesOnce_opcodeMap : opcodeMap.toList.all addressesOnce := by decide +kernel

theorem Row.addressOnce_of_form? {row : Row} {reg : Nat} {form : Form} (h : row.addressesOnce)
    (hform : row.form? reg = some form) : Slot.addressOnce form.slots := by
  rcases cases_of_form? hform with rfl | ⟨forms, rfl, hmem⟩
  · exact h
  · exact List.all_eq_true.mp h _ hmem

end Rows

def Instruction.memoryOperands (i : Instruction) : List Operand :=
  i.operands.filter Operand.isMemory

section Operands

variable {v : CodeView} {override : Option SegReg} {m : ModRm} {i : Nat}

theorem Field.isMemory_operand {f : Field} (h : f.isMemory = false) :
    (f.operand v override i).isMemory = false := by
  cases f with
  | fixed o => exact h
  | moffs w => exact nomatch h
  | imm w => cases w <;> rfl
  | _ => rfl

theorem Operand.isMemory_register (n : Nat) (w : Width) : (register n w).isMemory = false := by
  cases w <;> rfl

namespace Slot

theorem isMemory_operand {s : Slot} (h : s.isApart) :
    (s.operand v override m i).isMemory = false := by
  cases s with
  | reg w => exact Operand.isMemory_register _ w
  | seg => rfl
  | rm w | mem w => exact nomatch h
  | field f => exact Field.isMemory_operand (by simpa [isApart] using h)

theorem operands_of_isApart {ss : List Slot} (h : ss.all isApart) :
    (operands v override m ss i).filter Operand.isMemory = [] := by
  induction ss generalizing i with
  | nil => rfl
  | cons s ss ih =>
    rw [List.all_cons, Bool.and_eq_true] at h
    rw [operands, List.filter_cons_of_neg (Bool.eq_false_iff.mp (isMemory_operand h.1))]
    exact ih h.2

theorem operands_of_addressOnce {ss : List Slot} {x : Width → Operand} (h : addressOnce ss)
    (hx : ∀ w, Operand.ofModRm v.regs m (displacement v m i) w override = x w)
    (hmemory : ∀ w, (x w).isMemory) :
    (operands v override m ss i).filter Operand.isMemory =
      [x ((ss.findSome? addressed?).getD .word)] := by
  induction ss with
  | nil => exact nomatch h
  | cons s ss ih =>
    cases s with
    | field f => exact nomatch h
    | reg w =>
      have hregister : ¬ ((reg w).operand v override m i).isMemory := by
        exact Bool.eq_false_iff.mp (isMemory_operand (s := reg w) rfl)
      rw [operands, List.filter_cons_of_neg hregister]
      exact ih h
    | seg => exact ih h
    | rm w | mem w =>
      rw [operands, operand, hx, List.filter_cons_of_pos (hmemory w), operands_of_isApart h]
      rfl

end Slot
end Operands

namespace ModRm

variable {m n : ModRm} (r : Registers) (d : UInt16) (override : Option SegReg)

theorem reference_congr (hrm : n.rm = m.rm) (hdirect : n.isDirect = m.isDirect) :
    n.reference r d override = m.reference r d override := by
  have hbase : AddressBase.ofModRm n = AddressBase.ofModRm m := by
    by_cases h6 : m.rm = 6
    · have hmode : n.mode = 0 ↔ m.mode = 0 := by
        rw [← and_iff_left (a := n.mode = 0) (hrm.trans h6), ← isDirect_iff, hdirect,
          isDirect_iff, and_iff_left h6]
      simp only [AddressBase.ofModRm, hrm, h6, hmode]
    · unfold AddressBase.ofModRm
      rw [hrm]
      split <;> first | rfl | contradiction
  simp only [reference, hbase]

theorem reference_of_isDirect (h : m.isDirect) :
    m.reference r d override = .direct r (override.getD .ds) d override.isSome := by
  obtain ⟨hmode, hrm⟩ := isDirect_iff.mp h
  simp [reference, AddressBase.ofModRm, hmode, hrm, MemoryRef.direct, AddressBase.sum,
    AddressBase.defaultSegment]

end ModRm

namespace CodeView

/-- Behind the prefixes `p` the opcode at byte `k` has a form with an operand in memory, which the
addressing byte `m` names. -/
structure Addresses (v : CodeView) (p : Prefixes) (k : Nat) (form : Form) (m : ModRm) : Prop where
  opcode : v.HasOpcode p k (Row.ofOpcode (v.code k))
  addressing : ModRm.ofByte (v.code (k + 1)) = m
  form : (Row.ofOpcode (v.code k)).form? m.reg = some form
  mode : m.mode ≠ 3

/-- The same registers, override and field of the addressing byte. -/
structure Alike (v w : CodeView) (p q : Prefixes) (m n : ModRm) : Prop where
  regs : w.regs = v.regs
  override : q.segment = p.segment
  rm : n.rm = m.rm
  direct : n.isDirect = m.isDirect

def Names (v : CodeView) (x : MemoryRef) (w : Width) : Prop :=
  (decode v).instruction.memoryOperands = [.mem x w]

/-- MOV between the accumulator and an address right behind the opcode. -/
def movesDirect (opcode : UInt8) : Prop :=
  opcode = 0xA0 ∨ opcode = 0xA1 ∨ opcode = 0xA2 ∨ opcode = 0xA3

variable {v : CodeView} {p : Prefixes} {k : Nat} {form : Form} {m : ModRm} {d : Int}

theorem Addresses.mode_lt (h : v.Addresses p k form m) : m.mode < 3 := by
  have hlt : m.mode < 4 := h.addressing ▸ ModRm.mode_ofByte_lt _
  have hmode := h.mode
  omega

theorem Addresses.operands_eq (h : v.Addresses p k form m) :
    (decode v).instruction.operands = Slot.operands v p.segment m form.slots (k + 2) := by
  have htakes : form.takes m := by simp [Form.takes, ModRm.isRegister, h.mode]
  rw [(Encodes.modRm h.opcode h.addressing h.form htakes).decode_eq]
  rfl

theorem Addresses.names (h : v.Addresses p k form m) (hd : m.Displaces v.code (k + 2) d) :
    v.Names (m.reference v.regs (UInt16.ofInt d) p.segment) form.addressedWidth := by
  have honce := Row.addressOnce_of_form?
    (Row.ofOpcode_of_all Row.addressesOnce_opcodeMap rfl _) h.form
  rw [Names, Instruction.memoryOperands, h.operands_eq]
  exact Slot.operands_of_addressOnce honce (fun w => hd.operand_eq w p.segment) fun _ => rfl

theorem row_of_movesDirect {b : UInt8} (h : movesDirect b) :
    let w := Width.ofOpcode b
    Row.ofOpcode b = .plain .mov [Row.acc w, .moffs w] ∨
      Row.ofOpcode b = .plain .mov [.moffs w, Row.acc w] := by
  rcases h with rfl | rfl | rfl | rfl <;> decide +kernel

theorem HasOpcode.names_of_movesDirect (h : v.HasOpcode p k (Row.ofOpcode (v.code k)))
    (hopcode : movesDirect (v.code k)) :
    v.Names (.direct v.regs (p.segment.getD .ds) (v.word (k + 1)) p.segment.isSome)
      (Width.ofOpcode (v.code k)) := by
  rw [Names, Instruction.memoryOperands]
  rcases row_of_movesDirect hopcode with hrow | hrow <;>
  · rw [(Encodes.plain (hrow ▸ h)).decode_eq]
    generalize Width.ofOpcode (v.code k) = w
    cases w <;> rfl

end CodeView

open CodeView in
/-- Whatever bytes follow the addressing byte are some displacement. Registers, override, the field
for the registers and the displacement make the operand; the number of bytes of the displacement
does not, nor does the instruction. An address without registers makes the operand that it makes
behind the opcode of MOV. -/
theorem effective_address_of_displacement {v : CodeView} {p : Prefixes} {k : Nat} {form : Form}
    {m : ModRm} (h : v.Addresses p k form m) :
    (∃ d, m.Displaces v.code (k + 2) d) ∧
      ∀ d, m.Displaces v.code (k + 2) d → ∃ x : MemoryRef,
        x.Located v.regs p.segment m d ∧ v.Names x form.addressedWidth ∧
          (∀ (v' : CodeView) (p' : Prefixes) (k' : Nat) (form' : Form) (m' : ModRm),
            v'.Addresses p' k' form' m' → Alike v v' p p' m m' →
            m'.Displaces v'.code (k' + 2) d → v'.Names x form'.addressedWidth) ∧
          (m.isDirect → ∀ (v' : CodeView) (p' : Prefixes) (k' : Nat),
            v'.HasOpcode p' k' (Row.ofOpcode (v'.code k')) → movesDirect (v'.code k') →
            v'.regs = v.regs → p'.segment = p.segment → v'.word (k' + 1) = v.word (k + 2) →
            v'.Names x (Width.ofOpcode (v'.code k'))) := by
  refine ⟨ModRm.exists_displaces h.mode_lt, fun d hd =>
    ⟨m.reference v.regs (UInt16.ofInt d) p.segment, m.located_reference _ _ d, h.names hd, ?_, ?_⟩⟩
  · intro v' p' k' form' m' h' halike hd'
    have hnames := h'.names hd'
    rwa [halike.regs, halike.override, ModRm.reference_congr _ _ _ halike.rm halike.direct]
      at hnames
  · intro hdirect v' p' k' h' hopcode hregs hoverride hword
    have hnames := h'.names_of_movesDirect hopcode
    have haddress : v.word (k + 2) = UInt16.ofInt d := hd.word_of_isDirect hdirect
    rwa [hregs, hoverride, hword, haddress, ← ModRm.reference_of_isDirect _ _ _ hdirect] at hnames

/-- A processor with BX = 1 and ES = 2000 in front of some bytes. -/
def inFrontOf (bytes : List UInt8) : CodeView :=
  ⟨fun i => bytes.getD i 0, 0, { Registers.zero with bx := 1, es := 0x2000 }, .i8086⟩

def wordLoad : Form := ⟨.mov, [.reg .word, .rm .word]⟩

/-- Two bytes before ES:BX, with the displacement in two bytes and in one; the offset wraps around.
Then the word at 1234, with an addressing byte and without. -/
theorem two_bytes_before_es_bx :
    (∃ x, (inFrontOf [0x26, 0x8B, 0x87, 0xFE, 0xFF]).Names x .word ∧
        (inFrontOf [0x26, 0x8B, 0x47, 0xFE]).Names x .word ∧
        x.offset.toNat = 0xFFFF ∧ x.segReg = .es ∧ x.segment = 0x2000) ∧
      ∃ x, (inFrontOf [0x8B, 0x06, 0x34, 0x12]).Names x .word ∧
        (inFrontOf [0xA1, 0x34, 0x12]).Names x .word ∧ x.offset.toNat = 0x1234 ∧ x.segReg = .ds := by
  let es : Prefixes := ⟨some .es, none, false⟩
  constructor
  · have hlong : (inFrontOf [0x26, 0x8B, 0x87, 0xFE, 0xFF]).Addresses es 1 wordLoad ⟨2, 0, 7⟩ :=
      ⟨⟨by decide, by decide, rfl⟩, by decide, by decide +kernel, by decide⟩
    have hshort : (inFrontOf [0x26, 0x8B, 0x47, 0xFE]).Addresses es 1 wordLoad ⟨1, 0, 7⟩ :=
      ⟨⟨by decide, by decide, rfl⟩, by decide, by decide +kernel, by decide⟩
    obtain ⟨-, hall⟩ := effective_address_of_displacement hlong
    obtain ⟨x, hlocated, hnames, hother, -⟩ := hall (-2) (.word rfl (by decide))
    have hoffset : (x.offset.toNat : Int) = 0xFFFF := hlocated.offset
    have hsegment : x.segReg = .es := hlocated.segReg
    refine ⟨x, hnames, ?_, by omega, hsegment, ?_⟩
    · exact hother _ _ _ _ _ hshort ⟨rfl, rfl, rfl, rfl⟩
        (.byte rfl (by decide) (by decide) (by decide))
    · rw [hlocated.segment, hsegment]
      rfl
  · have hdirect : (inFrontOf [0x8B, 0x06, 0x34, 0x12]).Addresses .none 0 wordLoad ⟨0, 0, 6⟩ :=
      ⟨⟨by decide, by decide, rfl⟩, by decide, by decide +kernel, by decide⟩
    obtain ⟨-, hall⟩ := effective_address_of_displacement hdirect
    obtain ⟨x, hlocated, hnames, -, hmov⟩ := hall 0x1234 (.address rfl (by decide))
    have hoffset : (x.offset.toNat : Int) = 0x1234 := hlocated.offset
    refine ⟨x, hnames, ?_, by omega, hlocated.segReg⟩
    exact hmov rfl (inFrontOf [0xA1, 0x34, 0x12]) .none 0 ⟨by decide, by decide, rfl⟩
      (.inr (.inl rfl)) rfl rfl (by decide)

end RealMode
