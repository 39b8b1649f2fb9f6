import RealMode.Decode
import RealMode.Execute
import RealMode.Proofs.OperandShape
import RealMode.Proofs.OperandText
import Mathlib.Data.List.TakeWhile

/-! # Texts of instructions

Read from the left each part of a line tells what it stands for.
-/
namespace RealMode

namespace Text

/-- The text with a word in front, if there is one. -/
def prefixed (w : Option String) (s : List Char) : List Char :=
  match w with
  | none => s
  | some w => w.toList ++ ' ' :: s

def firstWord (s : List Char) : List Char := s.takeWhile (· ≠ ' ')

theorem blank_not_mem_firstWord {s : List Char} : ' ' ∉ firstWord s := by
  intro h
  have hne := List.mem_takeWhile_imp h
  simp at hne

theorem firstWord_append {a b : List Char} (ha : ' ' ∉ a) (hb : Opens ' ' b) :
    firstWord (a ++ b) = a := by
  have hall : ∀ c ∈ a, decide (c ≠ ' ') = true := by
    intro c hc
    exact decide_eq_true fun h => ha (h ▸ hc)
  have hend : b.takeWhile (· ≠ ' ') = [] := by
    cases b with
    | nil => rfl
    | cons c b =>
      have hc : c = ' ' := hb c rfl
      simp [hc]
  rw [firstWord, List.takeWhile_append_of_pos hall, hend, List.append_nil]

def Leads (words : List String) (s : List Char) : Prop := ∃ w ∈ words, firstWord s = w.toList

section Prefixed

variable {words others : List String} {x y : Option String} {s t : List Char}

theorem Leads.prefixed (hblank : ∀ w ∈ words, ' ' ∉ w.toList) (hx : ∀ w ∈ x, w ∈ words)
    (hs : Leads others s) : Leads (words ++ others) (prefixed x s) := by
  cases x with
  | none =>
    obtain ⟨w, hw, hfirst⟩ := hs
    exact ⟨w, List.mem_append_right words hw, hfirst⟩
  | some w =>
    have hw := hx w rfl
    exact ⟨w, List.mem_append_left others hw, firstWord_append (hblank w hw) (opens_cons _ _)⟩

theorem firstWord_ne (hdisjoint : ∀ w ∈ words, w ∉ others) (hs : Leads others s) {w : String}
    (hw : w ∈ words) : firstWord s ≠ w.toList := by
  obtain ⟨u, hu, hfirst⟩ := hs
  intro h
  rw [hfirst, String.toList_inj] at h
  exact hdisjoint w hw (h ▸ hu)

/-- A word that may stand in front is told from what else can begin the text. -/
theorem prefixed_inj (hblank : ∀ w ∈ words, ' ' ∉ w.toList)
    (hdisjoint : ∀ w ∈ words, w ∉ others) (hx : ∀ w ∈ x, w ∈ words) (hy : ∀ w ∈ y, w ∈ words)
    (hs : Leads others s) (ht : Leads others t) (h : prefixed x s = prefixed y t) :
    x = y ∧ s = t := by
  have hfirst {w : String} (hw : w ∈ words) (s : List Char) :
      firstWord (prefixed (some w) s) = w.toList :=
    firstWord_append (hblank w hw) (opens_cons _ _)
  cases x with
  | none =>
    cases y with
    | none => exact ⟨rfl, h⟩
    | some w =>
      have hw := hy w rfl
      have hs' : s = prefixed (some w) t := h
      exact absurd (hs' ▸ hfirst hw t) (firstWord_ne hdisjoint hs hw)
  | some u =>
    have hu := hx u rfl
    cases y with
    | none =>
      have ht' : t = prefixed (some u) s := h.symm
      exact absurd (ht' ▸ hfirst hu s) (firstWord_ne hdisjoint ht hu)
    | some w =>
      obtain ⟨hword, hrest⟩ := append_inj_of_opens (hblank u hu) (hblank w (hy w rfl))
        (opens_cons _ _) (opens_cons _ _) h
      rw [String.toList_inj.mp hword]
      exact ⟨rfl, (List.cons.inj hrest).2⟩

end Prefixed

section Separated

theorem toList_intercalate_cons (x : String) (xs : List String) :
    (", ".intercalate (x :: xs)).toList =
      x.toList ++ if xs = [] then [] else ',' :: ' ' :: (", ".intercalate xs).toList := by
  split
  next hnil => rw [hnil, String.intercalate_singleton, List.append_nil]
  next hne =>
    rw [String.intercalate_cons_of_ne_nil hne, String.toList_append, String.toList_append,
      List.append_assoc]
    rfl

theorem intercalate_inj {xs ys : List String} (hx : ∀ x ∈ xs, ',' ∉ x.toList)
    (hy : ∀ y ∈ ys, ',' ∉ y.toList) (hxs : xs ≠ []) (hys : ys ≠ [])
    (h : (", ".intercalate xs).toList = (", ".intercalate ys).toList) : xs = ys := by
  have hopens (xs : List String) :
      Opens ',' (if xs = [] then [] else ',' :: ' ' :: (", ".intercalate xs).toList) := by
    split
    next => exact opens_nil _
    next => exact opens_cons _ _
  induction xs generalizing ys with
  | nil => exact absurd rfl hxs
  | cons x xs ih =>
    cases ys with
    | nil => exact absurd rfl hys
    | cons y ys =>
      simp only [List.forall_mem_cons] at hx hy
      rw [toList_intercalate_cons, toList_intercalate_cons] at h
      obtain ⟨hhead, htail⟩ := append_inj_of_opens hx.1 hy.1 (hopens xs) (hopens ys) h
      obtain rfl := String.toList_inj.mp hhead
      by_cases hnx : xs = []
      · by_cases hny : ys = []
        · rw [hnx, hny]
        · simp [hnx, hny] at htail
      · by_cases hny : ys = []
        · simp [hnx, hny] at htail
        · rw [if_neg hnx, if_neg hny] at htail
          rw [ih hx.2 hy.2 hnx hny (List.cons.inj (List.cons.inj htail).2).2]

theorem head?_intercalate_ne {c : Char} (hc : c ≠ ',') {xs : List String}
    (h : ∀ x ∈ xs, x.toList.head? ≠ some c) :
    (", ".intercalate xs).toList.head? ≠ some c := by
  cases xs with
  | nil => simp
  | cons x xs =>
    have hx := h x List.mem_cons_self
    rw [toList_intercalate_cons]
    cases hl : x.toList with
    | nil =>
      split
      next => simp
      next => simpa using hc.symm
    | cons d l => simpa [hl] using hx

end Separated
end Text

namespace Op

def all : List Op :=
  AluOp.all.map alu ++ [.rol, .ror, .rcl, .rcr, .shl, .shr, .sar].map shift ++
  Condition.all.map jcc ++
  [.movs, .cmps, .stos, .lods, .scas, .ins, .outs].flatMap
    (fun op => [string op .byte, string op .word]) ++
  [inc, dec, neg, not, mul, imul, div, idiv, test, xchg, mov, lea, lds, les, push, pop, pusha,
    popa, pushf, popf, lahf, sahf, cbw, cwd, xlat, salc, daa, das, aaa, aas, aam, aad, jmp,
    jmpFar, call, callFar, ret, retFar, loop, loope, loopne, jcxz, int, int3, into, iret, enter,
    leave, bound, input, output, clc, stc, cmc, cld, std, cli, sti, hlt, wait, nop, esc 0, db, dw]

/-- What the mnemonic tells of the operation. -/
def written : Op → Op
  | imul3 => imul
  | esc _ => esc 0
  | op => op

theorem written_mem_all (op : Op) : op.written ∈ all := by
  cases op with
  | alu a => cases a <;> decide
  | shift s => cases s <;> decide
  | jcc c => cases c <;> decide
  | string s w => cases s <;> cases w <;> decide
  | esc n => exact (by decide : esc 0 ∈ all)
  | _ => decide

theorem mnemonic_written (op : Op) : op.written.mnemonic = op.mnemonic := by
  cases op <;> rfl

theorem mnemonic_of_all {p : String → Prop} (h : ∀ op ∈ all, p op.mnemonic) (op : Op) :
    p op.mnemonic :=
  mnemonic_written op ▸ h _ (written_mem_all op)

theorem nodup_mnemonics : (all.map mnemonic).Nodup := by decide +kernel

theorem written_inj {a b : Op} (h : a.mnemonic = b.mnemonic) : a.written = b.written := by
  rw [← mnemonic_written a, ← mnemonic_written b] at h
  exact List.inj_on_of_nodup_map nodup_mnemonics (written_mem_all a) (written_mem_all b) h

theorem written_eq_esc_iff {op : Op} : op.written = esc 0 ↔ ∃ n, op = esc n := by
  constructor
  · intro h
    unfold written at h
    split at h
    next => exact nomatch h
    next n => exact ⟨n, rfl⟩
    next hesc => exact absurd h (hesc 0)
  · rintro ⟨n, rfl⟩
    rfl

theorem eq_of_written {a b : Op} (h : a.written = b.written) (hthree : a = imul3 ↔ b = imul3)
    (hesc : ¬ ∃ n, a = esc n) : a = b := by
  have hesc' : ¬ ∃ n, b = esc n := by rwa [← written_eq_esc_iff, ← h, written_eq_esc_iff]
  unfold written at h
  split at h
  next => exact (hthree.mp rfl).symm
  next n => exact absurd ⟨n, rfl⟩ hesc
  next =>
    split at h
    next => exact hthree.mpr rfl
    next n => exact absurd ⟨n, rfl⟩ hesc'
    next => exact h

def words : List String := all.map fun op => String.ofList (Text.firstWord op.mnemonic.toList)

/-- Behind its first word a mnemonic says at most that a branch is a far one. -/
theorem mnemonic_split (op : Op) : ∃ tail ∈ ["", " far"],
    op.mnemonic.toList = Text.firstWord op.mnemonic.toList ++ tail.toList :=
  mnemonic_of_all (p := fun s => ∃ tail ∈ ["", " far"],
    s.toList = Text.firstWord s.toList ++ tail.toList) (by decide +kernel) op

theorem firstWord_mem_words (op : Op) :
    String.ofList (Text.firstWord op.mnemonic.toList) ∈ words :=
  mnemonic_of_all (p := fun s => String.ofList (Text.firstWord s.toList) ∈ words)
    (fun _ h => List.mem_map_of_mem h) op

/-- What can stand behind a mnemonic. -/
def Behind (s : List Char) : Prop := Text.Opens ' ' s ∧ s[1]? ≠ some 'f'

section Mnemonic

variable {a b : Op} {s t : List Char}

theorem opens_tail {tail : String} (htail : tail ∈ ["", " far"]) (hs : Behind s) :
    Text.Opens ' ' (tail.toList ++ s) := by
  simp only [List.mem_cons, List.not_mem_nil, or_false] at htail
  rcases htail with rfl | rfl
  · exact hs.1
  · exact Text.opens_cons _ _

theorem leads_mnemonic (a : Op) (hs : Behind s) :
    Text.Leads words (a.mnemonic.toList ++ s) := by
  obtain ⟨tail, htail, hsplit⟩ := mnemonic_split a
  refine ⟨_, firstWord_mem_words a, ?_⟩
  rw [String.toList_ofList]
  conv => lhs; rw [hsplit, List.append_assoc]
  exact Text.firstWord_append Text.blank_not_mem_firstWord (opens_tail htail hs)

/-- The mnemonic is told from the operands behind it. -/
theorem mnemonic_append_inj (hs : Behind s) (ht : Behind t)
    (h : a.mnemonic.toList ++ s = b.mnemonic.toList ++ t) : a.mnemonic = b.mnemonic ∧ s = t := by
  obtain ⟨x, hx, ha⟩ := mnemonic_split a
  obtain ⟨y, hy, hb⟩ := mnemonic_split b
  rw [ha, hb, List.append_assoc, List.append_assoc] at h
  obtain ⟨hword, htail⟩ := Text.append_inj_of_opens Text.blank_not_mem_firstWord
    Text.blank_not_mem_firstWord (opens_tail hx hs) (opens_tail hy ht) h
  suffices hxy : x = y by
    subst hxy
    refine ⟨String.toList_inj.mp ?_, List.append_cancel_left htail⟩
    rw [ha, hb, hword]
  simp only [List.mem_cons, List.not_mem_nil, or_false] at hx hy
  rcases hx with rfl | rfl <;> rcases hy with rfl | rfl
  · rfl
  · exact absurd (congrArg (·[1]?) (show s = " far".toList ++ t from htail)) hs.2
  · exact absurd (congrArg (·[1]?) (show t = " far".toList ++ s from htail.symm)) ht.2
  · rfl

end Mnemonic
end Op

def Repeat.word (compare : Bool) : Repeat → String
  | rep => if compare then "repe" else "rep"
  | repne => "repne"

namespace Instruction

open Text

variable (i : Instruction)

def lockWord : Option String := if i.lock then some "lock" else none

def repeatWord : Option String := i.repeated.map (Repeat.word i.op.isCompare)

def overrideWord : Option String :=
  if i.operands.any Operand.isMemory then none else i.override.map SegReg.name

def items : List String :=
  match i.op with
  | .esc n => toString n :: i.operands.map Operand.text
  | _ => i.operands.map Operand.text

theorem text_eq : i.text.toList =
    prefixed i.lockWord (prefixed i.repeatWord (prefixed i.overrideWord
      (i.op.mnemonic.toList ++ i.operandText.toList))) := by
  have hlock (s : List Char) :
      (if i.lock then "lock " else "").toList ++ s = prefixed i.lockWord s := by
    unfold lockWord
    split <;> rfl
  have hrepeat (s : List Char) : i.repeatText.toList ++ s = prefixed i.repeatWord s := by
    unfold repeatText repeatWord
    cases i.repeated with
    | none => rfl
    | some q => cases i.op.isCompare <;> cases q <;> rfl
  have hoverride (s : List Char) : i.overrideText.toList ++ s = prefixed i.overrideWord s := by
    unfold overrideText overrideWord
    cases i.operands.any Operand.isMemory with
    | true => cases i.override <;> rfl
    | false =>
      cases i.override with
      | none => rfl
      | some v => cases v <;> rfl
  rw [← hlock, ← hrepeat, ← hoverride]
  simp only [text, String.toList_append, List.append_assoc]

theorem operandText_eq : i.operandText =
    if i.items = [] then "" else " " ++ ", ".intercalate i.items := by
  unfold operandText items
  cases i.op with
  | esc n =>
    cases i.operands with
    | nil => simp
    | cons o os => simp [String.append_assoc, String.intercalate_cons_of_ne_nil]
  | _ => cases i.operands <;> simp

theorem forall_items {p : String → Prop} (hdigits : ∀ n : Nat, p (toString n))
    (htext : ∀ o : Operand, p o.text) : ∀ s ∈ i.items, p s := by
  have hoperands : ∀ s ∈ i.operands.map Operand.text, p s := by
    intro s hs
    obtain ⟨o, -, rfl⟩ := List.mem_map.mp hs
    exact htext o
  unfold items
  split
  next n _ => exact List.forall_mem_cons.mpr ⟨hdigits n, hoperands⟩
  next => exact hoperands

theorem isDigit_of_mem_toString {n : Nat} {c : Char} (h : c ∈ (toString n).toList) :
    c.isDigit :=
  Nat.isDigit_of_mem_toDigits (by decide) (by decide) (Nat.toList_repr ▸ h)

theorem comma_not_mem_items : ∀ s ∈ i.items, ',' ∉ s.toList := by
  apply forall_items
  · intro n h
    exact absurd (isDigit_of_mem_toString h) (by decide)
  · exact Operand.comma_not_mem_text

theorem behind_operandText : Op.Behind i.operandText.toList := by
  rw [operandText_eq]
  split
  next => exact ⟨opens_nil _, by simp⟩
  next =>
    rw [String.toList_append]
    refine ⟨opens_cons _ _, ?_⟩
    have hhead : (", ".intercalate i.items).toList.head? ≠ some 'f' := by
      apply head?_intercalate_ne (by decide)
      apply forall_items
      · intro n hhead
        exact absurd (isDigit_of_mem_toString (List.mem_of_mem_head? hhead)) (by decide)
      · exact Operand.head?_text_ne
    rwa [List.head?_eq_getElem?] at hhead

theorem items_inj {i j : Instruction} (h : i.operandText = j.operandText) : i.items = j.items := by
  rw [operandText_eq, operandText_eq] at h
  split at h
  next hi =>
    split at h
    next hj => rw [hi, hj]
    next => simpa using congrArg String.toList h
  next hi =>
    split at h
    next => simpa using congrArg String.toList h
    next hj =>
      have hlist := congrArg String.toList ((String.append_right_inj _).mp h)
      exact intercalate_inj i.comma_not_mem_items j.comma_not_mem_items hi hj hlist

section Words

def lockWords : List String := ["lock"]

def repeatWords : List String := ["rep", "repe", "repne"]

def segmentWords : List String := SegReg.all.map SegReg.name

theorem lockWord_mem : ∀ w ∈ i.lockWord, w ∈ lockWords := by
  unfold lockWord
  cases i.lock <;> decide

theorem repeatWord_mem : ∀ w ∈ i.repeatWord, w ∈ repeatWords := by
  unfold repeatWord
  cases i.repeated with
  | none =>
    intro w hw
    exact nomatch hw
  | some q => cases i.op.isCompare <;> cases q <;> decide

theorem overrideWord_mem : ∀ w ∈ i.overrideWord, w ∈ segmentWords := by
  unfold overrideWord
  cases i.operands.any Operand.isMemory with
  | true =>
    intro w hw
    exact nomatch hw
  | false =>
    cases i.override with
    | none =>
      intro w hw
      exact nomatch hw
    | some v => cases v <;> decide

theorem blank_not_mem_words :
    (∀ w ∈ lockWords, ' ' ∉ w.toList) ∧ (∀ w ∈ repeatWords, ' ' ∉ w.toList) ∧
      ∀ w ∈ segmentWords, ' ' ∉ w.toList := by
  decide +kernel

/-- No word of one place is a word of a place behind it. -/
theorem disjoint_words :
    (∀ w ∈ lockWords, w ∉ repeatWords ++ (segmentWords ++ Op.words)) ∧
      (∀ w ∈ repeatWords, w ∉ segmentWords ++ Op.words) ∧
        ∀ w ∈ segmentWords, w ∉ Op.words := by
  decide +kernel

end Words

/-- The text tells each of its parts. -/
theorem parts_inj {i j : Instruction} (h : i.text = j.text) :
    i.lockWord = j.lockWord ∧ i.repeatWord = j.repeatWord ∧ i.overrideWord = j.overrideWord ∧
      i.op.mnemonic = j.op.mnemonic ∧ i.items = j.items := by
  obtain ⟨hblankLock, hblankRepeat, hblankSegment⟩ := blank_not_mem_words
  obtain ⟨hlocks, hrepeats, hsegments⟩ := disjoint_words
  have hop (i : Instruction) := Op.leads_mnemonic i.op i.behind_operandText
  have hoverride (i : Instruction) := (hop i).prefixed hblankSegment i.overrideWord_mem
  have hrepeat (i : Instruction) := (hoverride i).prefixed hblankRepeat i.repeatWord_mem
  have hlist := congrArg String.toList h
  rw [text_eq, text_eq] at hlist
  obtain ⟨hl, hlist⟩ := prefixed_inj hblankLock hlocks i.lockWord_mem j.lockWord_mem
    (hrepeat i) (hrepeat j) hlist
  obtain ⟨hr, hlist⟩ := prefixed_inj hblankRepeat hrepeats i.repeatWord_mem j.repeatWord_mem
    (hoverride i) (hoverride j) hlist
  obtain ⟨ho, hlist⟩ := prefixed_inj hblankSegment hsegments i.overrideWord_mem
    j.overrideWord_mem (hop i) (hop j) hlist
  obtain ⟨hm, hlist⟩ := Op.mnemonic_append_inj i.behind_operandText j.behind_operandText hlist
  exact ⟨hl, hr, ho, hm, items_inj (String.toList_inj.mp hlist)⟩

end Instruction
end RealMode
