import RealMode.Decode

/-! # Operand shapes

The rows of the opcode map meet what their operations ask of the operands, whatever bytes follow.
-/
namespace RealMode

inductive Use where
  | read
  | write
  /-- Takes its address. -/
  | address
  /-- Follows it as a far pointer. -/
  | follow
  deriving DecidableEq, Repr

namespace Use

def admits : Use → Operand → Bool
  | read, _ => true
  | write, .reg8 _ | write, .reg16 _ | write, .seg _ | write, .mem _ _ => true
  | address, .mem _ _ => true
  | follow, .mem _ _ | follow, .far _ _ => true
  | _, _ => false

def fit : List Use → List Operand → Bool
  | [], _ => true
  | u :: us, o :: os => u.admits o && fit us os
  | _ :: _, [] => false

theorem admits_mem (u : Use) (m : MemoryRef) (w : Width) : u.admits (.mem m w) := by
  cases u <;> rfl

theorem admits_register {u : Use} (h : u = .read ∨ u = .write) (n : Nat) (w : Width) :
    u.admits (.register n w) := by
  rcases h with rfl | rfl
  · rfl
  · cases w <;> rfl

theorem exists_of_fit {us : List Use} {os : List Operand} (h : fit us os) {n : Nat} {u : Use}
    (hu : us[n]? = some u) : ∃ o, os[n]? = some o ∧ u.admits o := by
  induction us generalizing os n with
  | nil => simp at hu
  | cons v us ih =>
    cases os with
    | nil => simp [fit] at h
    | cons o os =>
      simp only [fit, Bool.and_eq_true] at h
      cases n with
      | zero =>
        simp only [List.getElem?_cons_zero, Option.some.injEq] at hu
        subst v
        exact ⟨o, rfl, h.1⟩
      | succ n => exact ih h.2 hu

theorem exists_cons_of_fit {u : Use} {us : List Use} {os : List Operand} (h : fit (u :: us) os) :
    ∃ o rest, os = o :: rest ∧ u.admits o ∧ fit us rest := by
  cases os with
  | nil => exact nomatch h
  | cons o rest =>
    simp only [fit, Bool.and_eq_true] at h
    exact ⟨o, rest, rfl, h⟩

end Use

open Use in
/-- What executing an operation does with its operands. -/
def Op.uses : Op → List Use
  | alu .cmp | test => [read, read]
  | alu _ | shift _ | mov | input => [write, read]
  | inc | dec | neg | not | pop => [write]
  | mul | imul | div | idiv | push | call | aam | aad | int => [read]
  | jcc _ | jmp | loop | loope | loopne | jcxz => [read]
  | imul3 => [write, read, read]
  | xchg => [write, write]
  | lea | lds | les => [write, address]
  | bound => [read, address]
  | jmpFar | callFar => [follow]
  | enter | output => [read, read]
  | _ => []

def Instruction.Fits (i : Instruction) : Prop := Use.fit i.op.uses i.operands

namespace Field

def serves : Field → Use → Bool
  | fixed o, u => u.admits o
  | moffs _, _ => true
  | far, u => u = .read || u = .follow
  | _, u => u = .read

def serve : List Use → List Field → Bool
  | [], _ => true
  | u :: us, f :: fs => f.serves u && serve us fs
  | _ :: _, [] => false

variable (v : CodeView) (override : Option SegReg)

theorem admits_operand {f : Field} {u : Use} (h : f.serves u) (i : Nat) :
    u.admits (f.operand v override i) := by
  cases f with
  | fixed o => exact h
  | moffs w => exact u.admits_mem _ _
  | far => cases u <;> first | rfl | exact absurd h (by decide)
  | _ =>
    have hu : u = .read := by simpa [serves] using h
    subst u
    rfl

theorem fit_operands {us : List Use} {fs : List Field} (h : serve us fs) (i : Nat) :
    Use.fit us (operands v override fs i) := by
  induction us generalizing fs i with
  | nil => rfl
  | cons u us ih =>
    cases fs with
    | nil => simp [serve] at h
    | cons f fs =>
      simp only [serve, Bool.and_eq_true] at h
      simp only [operands, Use.fit, Bool.and_eq_true]
      exact ⟨admits_operand v override h.1 i, ih h.2 _⟩

end Field

namespace Slot

def serves : Slot → Use → Bool
  | reg _, u | seg, u | rm _, u => u = .read || u = .write
  | mem _, _ => true
  | field f, u => f.serves u

def serve : List Use → List Slot → Bool
  | [], _ => true
  | u :: us, s :: ss => s.serves u && serve us ss
  | _ :: _, [] => false

variable (v : CodeView) (override : Option SegReg) (m : ModRm)

theorem admits_operand {s : Slot} {u : Use} (h : s.serves u) (hm : m.isRegister → ¬ s.isMem)
    (i : Nat) : u.admits (s.operand v override m i) := by
  cases s with
  | reg w => exact Use.admits_register (by simpa [serves] using h) _ w
  | seg =>
    have hu : u = .read ∨ u = .write := by simpa [serves] using h
    rcases hu with rfl | rfl <;> rfl
  | rm w =>
    by_cases hr : m.isRegister
    · simp only [operand, Operand.ofModRm, hr, ↓reduceIte]
      exact Use.admits_register (by simpa [serves] using h) _ w
    · simp only [operand, Operand.ofModRm, hr]
      exact u.admits_mem _ w
  | mem w =>
    have hr : ¬ m.isRegister := fun hr => hm hr rfl
    simp only [operand, Operand.ofModRm, hr]
    exact u.admits_mem _ w
  | field f => exact Field.admits_operand v override h i

theorem fit_operands {us : List Use} {ss : List Slot} (h : serve us ss)
    (hm : m.isRegister → ¬ ss.any isMem) (i : Nat) :
    Use.fit us (operands v override m ss i) := by
  induction us generalizing ss i with
  | nil => rfl
  | cons u us ih =>
    cases ss with
    | nil => simp [serve] at h
    | cons s ss =>
      simp only [serve, Bool.and_eq_true] at h
      simp only [List.any_cons, Bool.or_eq_true, not_or] at hm
      simp only [operands, Use.fit, Bool.and_eq_true]
      exact ⟨admits_operand v override m h.1 (fun hr => (hm hr).1) i,
        ih h.2 (fun hr => (hm hr).2) _⟩

end Slot

namespace Row

theorem mem_of_getD_eq_some {forms : List (Option Form)} {reg : Nat} {form : Form}
    (h : forms.getD reg none = some form) : some form ∈ forms := by
  rw [List.getD_eq_getElem?_getD] at h
  cases hg : forms[reg]? with
  | none => simp [hg] at h
  | some g =>
    have hgf : g = some form := by simpa [hg] using h
    exact hgf ▸ List.mem_of_getElem? hg

def sound : Row → Bool
  | undefined => true
  | plain op fields => Field.serve op.uses fields
  | modRm form => Slot.serve form.op.uses form.slots
  | group forms => forms.all fun form => form.all fun f => Slot.serve f.op.uses f.slots

theorem sound_opcodeMap : opcodeMap.toList.all sound := by decide +kernel

theorem ofOpcode_of_all {check : Row → Bool} (h : opcodeMap.toList.all check)
    (hundefined : check undefined) (b : UInt8) : check (ofOpcode b) := by
  simp only [ofOpcode, Array.getD]
  split
  next hb => exact List.all_eq_true.mp h _ (Array.getElem_mem_toList hb)
  next => exact hundefined

theorem sound_ofOpcode (b : UInt8) : (ofOpcode b).sound := ofOpcode_of_all sound_opcodeMap rfl b

end Row

namespace Decoded

theorem fits_data (v : CodeView) (consumed : Nat) (fault : DecodeFault) :
    (data v consumed fault).instruction.Fits := by
  unfold data
  split <;> rfl

theorem fits_ofForm (v : CodeView) (p : Prefixes) (opcode : UInt8) (i : Nat) {form : Form}
    (h : Slot.serve form.op.uses form.slots) : (ofForm v p opcode i form).instruction.Fits := by
  unfold ofForm
  dsimp only
  split
  next => exact fits_data _ _ _
  next hm =>
    apply Slot.fit_operands v p.segment _ h
    intro hr hs
    simp [hr, hs] at hm

theorem fits_ofRow (v : CodeView) (p : Prefixes) (opcode : UInt8) (i : Nat) {row : Row}
    (h : row.sound) : (ofRow v p opcode i row).instruction.Fits := by
  cases row with
  | undefined => exact fits_data _ _ _
  | plain op fields => exact Field.fit_operands v p.segment h _
  | modRm form => exact fits_ofForm v p opcode _ h
  | group forms =>
    simp only [ofRow]
    split
    next form hform =>
      have hmem := Row.mem_of_getD_eq_some hform
      exact fits_ofForm v p opcode _ (List.all_eq_true.mp h _ hmem)
    next => exact fits_data _ _ _

end Decoded

/-- Bytes decode to nothing whose execution would miss an operand or find a wrong one. -/
theorem fits_decode (v : CodeView) : (decode v).instruction.Fits := by
  unfold decode
  split
  next => exact Decoded.fits_data _ _ _
  next p i _ =>
    dsimp only
    split
    next => exact Decoded.fits_data _ _ _
    next => exact Decoded.fits_ofRow v p _ i (Row.sound_ofOpcode _)

end RealMode
