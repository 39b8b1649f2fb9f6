import RealMode.Proofs.ListingText

/-! # Unambiguous listings -/
namespace RealMode

def Op.branches : Op → Bool
  | jcc _ | jmp | call | loop | loope | loopne | jcxz => true
  | _ => false

/-- What makes the text of an instruction tell it. -/
structure Instruction.Listed (r : Registers) (i : Instruction) : Prop where
  printed : ∀ o ∈ i.operands, o.Printed r i.override i.op.branches
  three : i.op = .imul3 ↔ i.operands.length = 3

namespace Operand

variable {r : Registers} {v w : Option SegReg} {branch : Bool} {os ps : List Operand}

theorem printed_register (n : Nat) (w : Width) : (register n w).Printed r v branch := by
  cases w <;> trivial

theorem map_text_inj (ho : ∀ o ∈ os, o.Printed r v branch) (hp : ∀ p ∈ ps, p.Printed r w branch)
    (h : os.map text = ps.map text) : os = ps ∧ (os.any isMemory → v = w) := by
  induction os generalizing ps with
  | nil => exact ⟨(List.map_eq_nil_iff.mp h.symm).symm, fun hm => nomatch hm⟩
  | cons o os ih =>
    cases ps with
    | nil => exact nomatch h
    | cons p ps =>
      simp only [List.forall_mem_cons] at ho hp
      simp only [List.map_cons, List.cons.injEq] at h
      obtain ⟨rfl, hmemory⟩ := text_inj ho.1 hp.1 h.1
      obtain ⟨rfl, hmemories⟩ := ih ho.2 hp.2 h.2
      constructor
      · rfl
      · intro hm
        rw [List.any_cons, Bool.or_eq_true] at hm
        rcases hm with hm | hm
        · exact hmemory hm
        · exact hmemories hm

end Operand

namespace Instruction

variable {r : Registers} {i j : Instruction}

theorem lock_inj (h : i.lockWord = j.lockWord) : i.lock = j.lock := by
  unfold lockWord at h
  cases hi : i.lock <;> cases hj : j.lock <;> simp [hi, hj] at h ⊢

theorem repeated_inj (h : i.repeatWord = j.repeatWord) : i.repeated = j.repeated := by
  have hwords (a b : Bool) (x y : Option Repeat) :
      x.map (Repeat.word a) = y.map (Repeat.word b) → x = y := by
    cases a <;> cases b <;> rcases x with _ | _ | _ <;> rcases y with _ | _ | _ <;> decide
  exact hwords _ _ _ _ h

theorem override_inj (hoperands : i.operands = j.operands)
    (hmemory : i.operands.any Operand.isMemory → i.override = j.override)
    (h : i.overrideWord = j.overrideWord) : i.override = j.override := by
  have hnames (x y : Option SegReg) : x.map SegReg.name = y.map SegReg.name → x = y := by
    rcases x with _ | x <;> rcases y with _ | y
    · decide
    · simp
    · simp
    · cases x <;> cases y <;> decide
  by_cases hm : i.operands.any Operand.isMemory
  · exact hmemory hm
  · unfold overrideWord at h
    rw [← hoperands, if_neg hm, if_neg hm] at h
    exact hnames _ _ h

theorem toString_nat_inj {m n : Nat} (h : toString m = toString n) : m = n := by
  have hvalue (n : Nat) : Nat.ofDigitChars 10 (toString n).toList 0 = n := by
    rw [show (toString n).toList = Nat.toDigits 10 n from Nat.toList_repr,
      Nat.ofDigitChars_ten_toDigits]
  rw [← hvalue m, h, hvalue]

theorem items_of_esc {n : Nat} (h : i.op = .esc n) :
    i.items = toString n :: i.operands.map Operand.text := by
  unfold items
  rw [h]

theorem items_of_not_esc (h : ¬ ∃ n, i.op = .esc n) :
    i.items = i.operands.map Operand.text := by
  unfold items
  split
  next n hn => exact absurd ⟨n, hn⟩ h
  next => rfl

/-- A coprocessor's number counts as an operand in the text, and only in the text. -/
theorem op_and_texts_inj (hi : i.Listed r) (hj : j.Listed r)
    (hmnemonic : i.op.mnemonic = j.op.mnemonic) (h : i.items = j.items) :
    i.op = j.op ∧ i.operands.map Operand.text = j.operands.map Operand.text := by
  have hwritten := Op.written_inj hmnemonic
  have hboth : (∃ n, i.op = .esc n) ↔ ∃ n, j.op = .esc n := by
    rw [← Op.written_eq_esc_iff, ← Op.written_eq_esc_iff, hwritten]
  by_cases hesc : ∃ n, i.op = .esc n
  · obtain ⟨n, hn⟩ := hboth.mp hesc
    obtain ⟨m, hm⟩ := hesc
    rw [items_of_esc hm, items_of_esc hn] at h
    obtain ⟨hnumber, htexts⟩ := List.cons.inj h
    rw [hm, hn, toString_nat_inj hnumber]
    exact ⟨rfl, htexts⟩
  · rw [items_of_not_esc hesc, items_of_not_esc (mt hboth.mpr hesc)] at h
    have hlength : i.operands.length = j.operands.length := by
      rw [← List.length_map (f := Operand.text), h, List.length_map]
    have hthree : i.op = .imul3 ↔ j.op = .imul3 := by rw [hi.three, hj.three, hlength]
    exact ⟨Op.eq_of_written hwritten hthree hesc, h⟩

theorem Listed.text_inj (hi : i.Listed r) (hj : j.Listed r) (h : i.text = j.text) :
    i.op = j.op ∧ i.operands = j.operands ∧ i.repeated = j.repeated ∧ i.lock = j.lock ∧
      i.override = j.override := by
  obtain ⟨hlock, hrepeat, hoverride, hmnemonic, hitems⟩ := parts_inj h
  obtain ⟨hop, htexts⟩ := op_and_texts_inj hi hj hmnemonic hitems
  obtain ⟨hoperands, hmemory⟩ := Operand.map_text_inj hi.printed (hop ▸ hj.printed) htexts
  exact ⟨hop, hoperands, repeated_inj hrepeat, lock_inj hlock,
    override_inj hoperands hmemory hoverride⟩

end Instruction

namespace Field

/-- Whether the field gives what is printed without ambiguity, whatever its bytes are. -/
def prints (branch : Bool) : Field → Bool
  | fixed (.imm v w) => !branch && (w = .word || v.toNat < 256)
  | fixed (.mem _ _) | fixed (.near _) => false
  | imm _ | immSigned => !branch
  | rel8 | rel16 => branch
  | fixed _ | far | moffs _ => true

variable {branch : Bool} (v : CodeView) (override : Option SegReg)

theorem printed_operand {f : Field} (h : f.prints branch) (i : Nat) :
    (f.operand v override i).Printed v.regs override branch := by
  cases f with
  | fixed o =>
    cases o with
    | imm x w =>
      simp only [prints, Bool.and_eq_true, Bool.or_eq_true, decide_eq_true_eq,
        Bool.not_eq_true'] at h
      constructor
      · exact h.1
      · intro hw
        rcases h.2 with hword | hbyte
        · rw [hw] at hword
          exact absurd hword (by decide)
        · exact hbyte
    | mem | near => exact absurd h Bool.false_ne_true
    | _ => trivial
  | imm w =>
    have hbranch : branch = false := by simpa [prints] using h
    cases w with
    | byte =>
      constructor
      · exact hbranch
      · intro _
        have hb := (v.code i).toNat_lt
        rw [wordOfByte, UInt16.toNat_ofNat']
        omega
    | word => exact ⟨hbranch, fun hw => absurd hw (by decide)⟩
  | immSigned =>
    have hbranch : branch = false := by simpa [prints] using h
    exact ⟨hbranch, fun hw => absurd hw (by decide)⟩
  | rel8 | rel16 => exact h
  | far => trivial
  | moffs w =>
    refine ⟨.direct, v.word i, ?_⟩
    simp only [MemoryRef.direct, MemoryRef.bound, AddressBase.sum, UInt16.zero_add]
    rfl

theorem printed_operands {fs : List Field} (h : fs.all (prints branch)) (i : Nat) :
    ∀ o ∈ operands v override fs i, o.Printed v.regs override branch := by
  induction fs generalizing i with
  | nil =>
    intro o ho
    exact nomatch ho
  | cons f fs ih =>
    rw [List.all_cons, Bool.and_eq_true] at h
    exact List.forall_mem_cons.mpr ⟨printed_operand v override h.1 i, ih h.2 _⟩

theorem length_operands (fs : List Field) (i : Nat) :
    (operands v override fs i).length = fs.length := by
  induction fs generalizing i with
  | nil => rfl
  | cons f fs ih => exact congrArg Nat.succ (ih _)

end Field

namespace Slot

def prints (branch : Bool) : Slot → Bool
  | field f => f.prints branch
  | _ => true

variable {branch : Bool} (v : CodeView) (override : Option SegReg) (m : ModRm)

theorem printed_operand {s : Slot} (h : s.prints branch) (i : Nat) :
    (s.operand v override m i).Printed v.regs override branch := by
  have hmodRm (w : Width) :
      (Operand.ofModRm v.regs m (displacement v m i) w override).Printed v.regs override branch := by
    unfold Operand.ofModRm
    split
    next => exact Operand.printed_register _ _
    next => exact ⟨_, _, rfl⟩
  cases s with
  | reg w => exact Operand.printed_register _ _
  | seg => trivial
  | rm w | mem w => exact hmodRm w
  | field f => exact Field.printed_operand v override h i

theorem printed_operands {ss : List Slot} (h : ss.all (prints branch)) (i : Nat) :
    ∀ o ∈ operands v override m ss i, o.Printed v.regs override branch := by
  induction ss generalizing i with
  | nil =>
    intro o ho
    exact nomatch ho
  | cons s ss ih =>
    rw [List.all_cons, Bool.and_eq_true] at h
    exact List.forall_mem_cons.mpr ⟨printed_operand v override m h.1 i, ih h.2 _⟩

theorem length_operands (ss : List Slot) (i : Nat) :
    (operands v override m ss i).length = ss.length := by
  induction ss generalizing i with
  | nil => rfl
  | cons s ss ih => exact congrArg Nat.succ (ih _)

end Slot

def Form.listed (form : Form) : Bool :=
  form.slots.all (Slot.prints form.op.branches) &&
    (form.op = .imul3 : Bool) == (form.slots.length = 3 : Bool)

namespace Row

def listed : Row → Bool
  | undefined => true
  | plain op fields =>
    fields.all (Field.prints op.branches) && (op = .imul3 : Bool) == (fields.length = 3 : Bool)
  | modRm form => form.listed
  | group forms => forms.all fun form => form.all Form.listed

theorem listed_opcodeMap : opcodeMap.toList.all listed := by decide +kernel

end Row

namespace Decoded

variable (v : CodeView)

theorem listed_data (consumed : Nat) (fault : DecodeFault) :
    (data v consumed fault).instruction.Listed v.regs := by
  have hdata (op : Op) (w : Width) (length : Nat) (hop : op.branches = false)
      (hthree : op ≠ .imul3) :
      (Instruction.bare op [(Field.imm w).operand v none 0] length).Listed v.regs := by
    have hprints : [Field.imm w].all (Field.prints op.branches) := by simp [Field.prints, hop]
    constructor
    · exact Field.printed_operands v none hprints 0
    · simp [Instruction.bare, hthree]
  unfold data
  split
  next => exact hdata .db .byte 1 rfl nofun
  next => exact hdata .dw .word 2 rfl nofun

variable (p : Prefixes) (opcode : UInt8) (i : Nat)

theorem listed_ofForm {form : Form} (h : form.listed) :
    (ofForm v p opcode i form).instruction.Listed v.regs := by
  simp only [Form.listed, Bool.and_eq_true, beq_iff_eq, decide_eq_decide] at h
  unfold ofForm
  dsimp only
  split
  next => exact listed_data _ _ _
  next =>
    constructor
    · exact Slot.printed_operands v p.segment _ h.1 _
    · rw [instr, Slot.length_operands]
      exact h.2

theorem listed_ofRow {row : Row} (h : row.listed) :
    (ofRow v p opcode i row).instruction.Listed v.regs := by
  cases row with
  | undefined => exact listed_data _ _ _
  | plain op fields =>
    simp only [Row.listed, Bool.and_eq_true, beq_iff_eq, decide_eq_decide] at h
    constructor
    · exact Field.printed_operands v p.segment h.1 _
    · rw [ofRow, instr, Field.length_operands]
      exact h.2
  | modRm form => exact listed_ofForm v p opcode _ h
  | group forms =>
    simp only [ofRow]
    split
    next form hform =>
      have hmem := Row.mem_of_getD_eq_some hform
      exact listed_ofForm v p opcode _ (List.all_eq_true.mp h _ hmem)
    next => exact listed_data _ _ _

end Decoded

theorem listed_decode (v : CodeView) : (decode v).instruction.Listed v.regs := by
  unfold decode
  split
  next => exact Decoded.listed_data _ _ _
  next p i _ =>
    dsimp only
    split
    next => exact Decoded.listed_data _ _ _
    next =>
      exact Decoded.listed_ofRow v p _ i (Row.ofOpcode_of_all Row.listed_opcodeMap rfl _)

/-- No operation asks how many bytes its instruction occupies. -/
theorem Instruction.execute_eq {M H : Type} [Bus M] [HostService M H] {i j : Instruction}
    (hop : i.op = j.op) (hoperands : i.operands = j.operands) (hrepeated : i.repeated = j.repeated)
    (hoverride : i.override = j.override) : (i.execute : Exec M H Unit) = j.execute := by
  obtain ⟨op, operands, repeated, lock, override, length⟩ := i
  obtain ⟨_, _, _, lock', _, length'⟩ := j
  obtain rfl : op = _ := hop
  obtain rfl : operands = _ := hoperands
  obtain rfl : repeated = _ := hrepeated
  obtain rfl : override = _ := hoverride
  cases op <;> rfl

/-- What the decoder gives with registers `r`, at any place of any memory and on any model. -/
inductive Instruction.DecodedWith (r : Registers) : Instruction → Prop where
  | at {M : Type} [Bus M] (m : M) (model : Model) (cs ip : UInt16) :
      DecodedWith r (decodeAt m r model cs ip).instruction

theorem Instruction.DecodedWith.listed {r : Registers} {i : Instruction} (h : i.DecodedWith r) :
    i.Listed r := by
  cases h with
  | «at» m model cs ip => exact listed_decode (.ofBus m r model cs ip)

/-- Two instructions that were decoded with the same registers and read the same are the same
instruction but for the number of bytes, and execute alike on every machine. -/
theorem Instruction.listing_unambiguous {r : Registers} {i j : Instruction}
    (hi : i.DecodedWith r) (hj : j.DecodedWith r) (h : i.text = j.text) :
    (i.op = j.op ∧ i.operands = j.operands ∧ i.repeated = j.repeated ∧ i.lock = j.lock ∧
      i.override = j.override) ∧
    ∀ (M H : Type) [Bus M] [HostService M H], (i.execute : Exec M H Unit) = j.execute := by
  obtain ⟨hop, hoperands, hrepeated, hlock, hoverride⟩ := hi.listed.text_inj hj.listed h
  exact ⟨⟨hop, hoperands, hrepeated, hlock, hoverride⟩,
    fun M H _ _ => execute_eq hop hoperands hrepeated hoverride⟩

/-- A memory that begins with the bytes and keeps them. -/
structure Rom where
  bytes : List UInt8

instance : Bus Rom where
  read := fun m a => m.bytes.getD a 0
  write := fun m _ _ => m

namespace Rom

/-- The load of AL from a fixed address has two encodings, here behind a segment override. -/
def shortLoad : Rom := ⟨[0x26, 0xA0, 0x34, 0x12]⟩

def longLoad : Rom := ⟨[0x26, 0x8A, 0x06, 0x34, 0x12]⟩

theorem loads_read_alike :
    let i := (decodeAt shortLoad .zero .i8086 0 0).instruction
    let j := (decodeAt longLoad .zero .i80186 0 0).instruction
    i.text = "mov al, byte es:[0x1234]" ∧ i.text = j.text ∧ i.length ≠ j.length ∧
      (i.op = j.op ∧ i.operands = j.operands ∧ i.repeated = j.repeated ∧ i.lock = j.lock ∧
        i.override = j.override) ∧
      ∀ (M H : Type) [Bus M] [HostService M H], (i.execute : Exec M H Unit) = j.execute :=
  ⟨by decide +kernel, by decide +kernel, by decide +kernel,
    Instruction.listing_unambiguous (.at shortLoad .i8086 0 0) (.at longLoad .i80186 0 0)
      (by decide +kernel)⟩

end Rom
end RealMode
