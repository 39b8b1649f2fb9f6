import RealMode.Operand
import Mathlib.Algebra.Group.Nat.Defs
import Mathlib.Data.List.Nodup

/-! # Texts of operands

The digits of a number tell its value, their count what kind of number it is.
-/
namespace RealMode

namespace Text

def Opens (s : Char) (l : List Char) : Prop := ∀ c ∈ l.head?, c = s

theorem opens_nil (s : Char) : Opens s [] := fun _ h => nomatch h

theorem opens_cons (s : Char) (l : List Char) : Opens s (s :: l) := fun _ h =>
  (Option.some.inj h).symm

/-- What stands in front of a separator is told from what begins with it. -/
theorem append_inj_of_opens {s : Char} {a b c d : List Char} (ha : s ∉ a) (hc : s ∉ c)
    (hb : Opens s b) (hd : Opens s d) (h : a ++ b = c ++ d) : a = c ∧ b = d := by
  induction a generalizing c with
  | nil =>
    cases c with
    | nil => exact ⟨rfl, h⟩
    | cons x c =>
      have hx : x = s := hb x (by rw [show b = x :: (c ++ d) from h]; rfl)
      exact absurd (hx ▸ List.mem_cons_self) hc
  | cons x a ih =>
    cases c with
    | nil =>
      have hx : x = s := hd x (by rw [show d = x :: (a ++ b) from h.symm]; rfl)
      exact absurd (hx ▸ List.mem_cons_self) ha
    | cons y c =>
      obtain ⟨rfl, htail⟩ := List.cons.inj h
      obtain ⟨rfl, rfl⟩ := ih (fun hm => ha (List.mem_cons_of_mem x hm))
        (fun hm => hc (List.mem_cons_of_mem x hm)) htail
      exact ⟨rfl, rfl⟩

section Digits

def digitValue (c : Char) : Nat := "0123456789abcdef".toList.idxOf c

def value (digits : List Char) : Nat := digits.foldl (fun n c => 16 * n + digitValue c) 0

theorem digitValue_digitChar {d : Nat} (h : d < 16) : digitValue d.digitChar = d := by
  revert d
  decide

theorem value_toDigits (n : Nat) : value (Nat.toDigits 16 n) = n := by
  induction n using Nat.strongRecOn with
  | ind n ih =>
    by_cases hn : n < 16
    · rw [Nat.toDigits_of_lt_base hn]
      simp only [value, List.foldl_cons, List.foldl_nil, Nat.mul_zero, Nat.zero_add]
      exact digitValue_digitChar hn
    · have hvalue := ih (n / 16) (by omega)
      unfold value at hvalue ⊢
      rw [Nat.toDigits_of_base_le (by decide) (Nat.not_lt.mp hn), List.foldl_append, hvalue,
        List.foldl_cons, List.foldl_nil, digitValue_digitChar (Nat.mod_lt n (by decide)),
        Nat.div_add_mod]

theorem not_mem_toDigits {c : Char} (hc : ∀ d < 16, d.digitChar ≠ c) (n : Nat) :
    c ∉ Nat.toDigits 16 n := by
  induction n using Nat.strongRecOn with
  | ind n ih =>
    by_cases hn : n < 16
    · rw [Nat.toDigits_of_lt_base hn, List.mem_singleton]
      exact (hc n hn).symm
    · rw [Nat.toDigits_of_base_le (by decide) (Nat.not_lt.mp hn), List.mem_append,
        List.mem_singleton, not_or]
      exact ⟨ih (n / 16) (by omega), (hc (n % 16) (Nat.mod_lt n (by decide))).symm⟩

variable (width n : Nat)

theorem toList_hex : (hex width n).toList =
    List.replicate (width - (Nat.toDigits 16 n).length) '0' ++ Nat.toDigits 16 n := by
  rw [hex, String.toList_ofList]

theorem value_hex : value (hex width n).toList = n := by
  have hzeros (k : Nat) (l : List Char) : value (List.replicate k '0' ++ l) = value l := by
    induction k with
    | zero => rfl
    | succ k ih => exact ih
  rw [toList_hex, hzeros, value_toDigits]

theorem not_mem_hex {c : Char} (hc : ∀ d < 16, d.digitChar ≠ c) : c ∉ (hex width n).toList := by
  rw [toList_hex, List.mem_append, not_or]
  constructor
  · intro hzero
    exact hc 0 (by decide) (List.eq_of_mem_replicate hzero).symm
  · exact not_mem_toDigits hc n

variable {width n} {m : Nat}

theorem hex_inj (h : hex width n = hex width m) : n = m := by
  rw [← value_hex width n, h, value_hex]

theorem length_hex (hwidth : 0 < width) (h : n < 16 ^ width) :
    (hex width n).toList.length = width := by
  have hle := (Nat.length_toDigits_le_iff (by decide) hwidth).mpr h
  rw [toList_hex, List.length_append, List.length_replicate]
  omega

end Digits
end Text

theorem Width.signed_word_inj {a b : UInt16} (h : Width.word.signed a = Width.word.signed b) :
    a = b := by
  have ha := a.toNat_lt
  have hb := b.toNat_lt
  have hmod := congrArg (· % (word.modulus : Int)) h
  simp only [signed, Int.bmod_emod, show word.modulus = 0x10000 from rfl] at hmod
  apply UInt16.toNat_inj.mp
  omega

namespace AddressBase

def leadText (base : AddressBase) (d : Int) : String :=
  match base.name? with
  | none => ""
  | some name => name ++ if d = 0 then "" else if d < 0 then "-" else "+"

/-- The bases with the signs that show behind them. -/
def leads : List (AddressBase × Int) :=
  (direct, 0) :: [bxSi, bxDi, bpSi, bpDi, si, di, bp, bx].flatMap fun b =>
    [(b, -1), (b, 0), (b, 1)]

theorem nodup_leads : (leads.map fun l => l.1.leadText l.2).Nodup := by decide +kernel

def sign (base : AddressBase) (d : Int) : Int := if base = direct then 0 else d.sign

theorem mem_leads (base : AddressBase) (d : Int) : (base, base.sign d) ∈ leads := by
  have hsign : d.sign = -1 ∨ d.sign = 0 ∨ d.sign = 1 := by
    rcases Int.lt_trichotomy d 0 with h | h | h
    · exact .inl (Int.sign_eq_neg_one_of_neg h)
    · exact .inr (.inl (Int.sign_eq_zero_iff_zero.mpr h))
    · exact .inr (.inr (Int.sign_eq_one_of_pos h))
  unfold sign
  rcases hsign with h | h | h <;> rw [h] <;> cases base <;> decide

theorem leadText_sign (base : AddressBase) (d : Int) :
    base.leadText (base.sign d) = base.leadText d := by
  have hzero : d.sign = 0 ↔ d = 0 := Int.sign_eq_zero_iff_zero
  have hneg : d.sign < 0 ↔ d < 0 := Int.sign_neg_iff
  cases base <;> simp only [leadText, name?, sign, reduceCtorEq, ↓reduceIte, hzero, hneg]

theorem leadText_of_leads {p : String → Prop} (h : ∀ l ∈ leads, p (l.1.leadText l.2))
    (base : AddressBase) (d : Int) : p (base.leadText d) :=
  leadText_sign base d ▸ h (base, base.sign d) (mem_leads base d)

theorem leadText_inj {a b : AddressBase} {x y : Int} (h : a.leadText x = b.leadText y) :
    a = b ∧ a.sign x = b.sign y := by
  rw [← leadText_sign a x, ← leadText_sign b y] at h
  have hpair := List.inj_on_of_nodup_map nodup_leads (mem_leads a x) (mem_leads b y) h
  exact Prod.mk.injEq .. ▸ hpair

end AddressBase

namespace MemoryRef

/-- The reference that the decoder binds to a base and a displacement. -/
def bound (r : Registers) (override : Option SegReg) (base : AddressBase)
    (displacement : UInt16) : MemoryRef :=
  let segReg := override.getD base.defaultSegment
  ⟨segReg, r.getSeg segReg, base.sum r + displacement, base, displacement, override.isSome⟩

variable (m : MemoryRef)

def segmentText : String := if m.explicit then m.segReg.name ++ ":" else ""

def numberText : String :=
  if m.base = .direct then "0x" ++ Text.hex 4 m.displacement.toNat
  else if m.signedDisplacement = 0 then ""
  else "0x" ++ Text.hex 2 m.signedDisplacement.natAbs

/-- The sign belongs to the lead and the digits to the number. -/
theorem signed_text (name digits : String) (d : Int) :
    (if d = 0 then name else name ++ (if d < 0 then "-0x" else "+0x") ++ digits) =
      (name ++ if d = 0 then "" else if d < 0 then "-" else "+") ++
        if d = 0 then "" else "0x" ++ digits := by
  by_cases hzero : d = 0
  · simp only [hzero, ↓reduceIte, String.append_empty]
  · have hminus : "-0x" = "-" ++ "0x" := rfl
    have hplus : "+0x" = "+" ++ "0x" := rfl
    by_cases hneg : d < 0
    · simp only [hzero, hneg, ↓reduceIte, hminus, String.append_assoc]
    · simp only [hzero, hneg, ↓reduceIte, hplus, String.append_assoc]

theorem text_eq : m.text =
    m.segmentText ++ "[" ++ (m.base.leadText m.signedDisplacement ++ m.numberText) ++ "]" := by
  obtain ⟨segReg, segment, offset, base, displacement, explicit⟩ := m
  cases base <;> simp only [text, segmentText, numberText, AddressBase.leadText,
    AddressBase.name?, reduceCtorEq, ↓reduceIte, signed_text, String.empty_append]

section Inj

variable {m} {k : MemoryRef}

theorem segmentText_inj (h : m.segmentText = k.segmentText) :
    m.explicit = k.explicit ∧ (m.explicit → m.segReg = k.segReg) := by
  have hshown (e f : Bool) (s t : SegReg) :
      (if e then s.name ++ ":" else "") = (if f then t.name ++ ":" else "") →
        e = f ∧ (e → s = t) := by
    cases e <;> cases f <;> cases s <;> cases t <;> decide
  exact hshown _ _ _ _ h

theorem numberText_inj (hbase : m.base = k.base)
    (hsign : m.base.sign m.signedDisplacement = k.base.sign k.signedDisplacement)
    (h : m.numberText = k.numberText) : m.displacement = k.displacement := by
  unfold numberText at h
  rw [← hbase] at h hsign
  by_cases hdirect : m.base = .direct
  · rw [if_pos hdirect, if_pos hdirect] at h
    exact UInt16.toNat_inj.mp (Text.hex_inj ((String.append_right_inj _).mp h))
  · rw [if_neg hdirect, if_neg hdirect] at h
    simp only [AddressBase.sign, hdirect, ↓reduceIte] at hsign
    apply Width.signed_word_inj
    show m.signedDisplacement = k.signedDisplacement
    rw [← Int.sign_mul_natAbs m.signedDisplacement, ← Int.sign_mul_natAbs k.signedDisplacement,
      hsign]
    by_cases hzero : k.signedDisplacement = 0
    · simp only [hzero, Int.sign_zero, Int.zero_mul]
    · have hm : ¬ m.signedDisplacement = 0 := by
        rwa [← Int.sign_eq_zero_iff_zero, hsign, Int.sign_eq_zero_iff_zero]
      rw [if_neg hm, if_neg hzero] at h
      rw [Text.hex_inj ((String.append_right_inj _).mp h)]

theorem text_inj (h : m.text = k.text) :
    m.base = k.base ∧ m.displacement = k.displacement ∧ m.explicit = k.explicit ∧
      (m.explicit → m.segReg = k.segReg) := by
  have hsegment (m : MemoryRef) : '[' ∉ m.segmentText.toList := by
    unfold segmentText
    split
    next => cases m.segReg <;> decide
    next => decide
  have hlead : ∀ (b : AddressBase) (d : Int), '0' ∉ (b.leadText d).toList :=
    AddressBase.leadText_of_leads (p := fun s => '0' ∉ s.toList) (by decide +kernel)
  have hnumber (m : MemoryRef) : Text.Opens '0' m.numberText.toList := by
    unfold numberText
    split
    next => rw [String.toList_append]; exact Text.opens_cons _ _
    next =>
      split
      next => exact Text.opens_nil _
      next => rw [String.toList_append]; exact Text.opens_cons _ _
  rw [text_eq, text_eq, String.append_left_inj] at h
  have hlist := congrArg String.toList h
  simp only [String.toList_append, List.append_assoc] at hlist
  obtain ⟨hs, ha⟩ := Text.append_inj_of_opens (hsegment m) (hsegment k) (Text.opens_cons _ _)
    (Text.opens_cons _ _) hlist
  have haddress := (List.cons.inj ha).2
  obtain ⟨hl, hn⟩ := Text.append_inj_of_opens (hlead _ _) (hlead _ _) (hnumber m) (hnumber k)
    haddress
  obtain ⟨hbase, hsign⟩ := AddressBase.leadText_inj (String.toList_inj.mp hl)
  obtain ⟨hexplicit, hseg⟩ := segmentText_inj (String.toList_inj.mp hs)
  exact ⟨hbase, numberText_inj hbase hsign (String.toList_inj.mp hn), hexplicit, hseg⟩

/-- With the registers that it is bound to the text tells a reference and its override. -/
theorem bound_inj {r : Registers} {v w : Option SegReg} {a b : AddressBase} {x y : UInt16}
    (h : (bound r v a x).text = (bound r w b y).text) :
    v = w ∧ bound r v a x = bound r w b y := by
  obtain ⟨hbase, hdisplacement, hexplicit, hseg⟩ := text_inj h
  obtain rfl : a = b := hbase
  obtain rfl : x = y := hdisplacement
  obtain rfl : v = w := by
    cases v <;> cases w
    · rfl
    · exact nomatch hexplicit
    · exact nomatch hexplicit
    · exact congrArg some (hseg rfl)
  exact ⟨rfl, rfl⟩

end Inj
end MemoryRef

namespace Operand

/-- What the decoder gives with registers `r` and a segment override. A branch has targets where
other operations have constants. -/
def Printed (r : Registers) (override : Option SegReg) (branch : Bool) : Operand → Prop
  | mem m _ => ∃ base displacement, m = .bound r override base displacement
  | imm v w => branch = false ∧ (w = .byte → v.toNat < 256)
  | near _ => branch = true
  | _ => True

inductive Kind where
  | register
  | memory
  | number
  deriving DecidableEq

def kind : Operand → Kind
  | reg8 _ | reg16 _ | seg _ => .register
  | mem _ _ => .memory
  | imm _ _ | near _ | far _ _ => .number

def registers : List Operand := Reg8.all.map reg8 ++ Reg16.all.map reg16 ++ SegReg.all.map seg

theorem nodup_registers : (registers.map text).Nodup := by decide +kernel

theorem mem_registers {o : Operand} (h : o.kind = .register) : o ∈ registers := by
  cases o with
  | reg8 r => cases r <;> decide
  | reg16 r => cases r <;> decide
  | seg s => cases s <;> decide
  | _ => exact nomatch h

def kindOfText (t : List Char) : Kind :=
  if ' ' ∈ t then .memory else if t.head? = some '0' then .number else .register

theorem blank_not_mem_hex (width n : Nat) : ' ' ∉ (Text.hex width n).toList :=
  Text.not_mem_hex width n (by decide)

theorem kindOfText_text (o : Operand) : kindOfText o.text.toList = o.kind := by
  have hhex := blank_not_mem_hex
  cases o with
  | reg8 r => cases r <;> decide
  | reg16 r => cases r <;> decide
  | seg s => cases s <;> decide
  | mem m w => cases w <;> simp [text, kindOfText, kind]
  | imm v w => cases w <;> simp [text, kindOfText, kind, hhex]
  | near target => simp [text, kindOfText, kind, hhex]
  | far segment offset => simp [text, kindOfText, kind, hhex]

section Inj

variable {r : Registers} {v w : Option SegReg} {branch : Bool} {o p : Operand}

def numberLength : Operand → Nat
  | imm _ .byte => 4
  | far _ _ => 13
  | _ => 6

theorem length_text (ho : o.kind = .number) : o.text.toList.length = o.numberLength := by
  have hword (x : UInt16) : (Text.hex 4 x.toNat).toList.length = 4 :=
    Text.length_hex (by decide) x.toNat_lt
  cases o with
  | imm x w =>
    cases w with
    | byte =>
      have hbyte : (Text.hex 2 (x.toNat % 256)).toList.length = 2 :=
        Text.length_hex (by decide) (Nat.mod_lt _ (by decide))
      simp only [text, String.toList_append, List.length_append, hbyte]
      rfl
    | word =>
      simp only [text, String.toList_append, List.length_append, hword]
      rfl
  | near target =>
    simp only [text, String.toList_append, List.length_append, hword]
    rfl
  | far segment offset =>
    simp only [text, String.toList_append, List.length_append, hword]
    rfl
  | _ => exact nomatch ho

theorem word_text_inj {x y : UInt16}
    (h : "0x" ++ Text.hex 4 x.toNat = "0x" ++ Text.hex 4 y.toNat) : x = y :=
  UInt16.toNat_inj.mp (Text.hex_inj ((String.append_right_inj _).mp h))

theorem far_text_inj {s t x y : UInt16} (h : (far s x).text = (far t y).text) :
    s = t ∧ x = y := by
  have hcolon (x : UInt16) : ':' ∉ ("0x" ++ Text.hex 4 x.toNat).toList := by
    rw [String.toList_append, List.mem_append, not_or]
    exact ⟨by decide, Text.not_mem_hex 4 _ (by decide)⟩
  have htext (s x : UInt16) : (far s x).text.toList =
      ("0x" ++ Text.hex 4 s.toNat).toList ++ (":0x" ++ Text.hex 4 x.toNat).toList := by
    rw [text, String.append_assoc, String.toList_append]
  have hlist := congrArg String.toList h
  rw [htext, htext] at hlist
  obtain ⟨hs, hx⟩ := Text.append_inj_of_opens (hcolon s) (hcolon t)
    (by rw [String.toList_append]; exact Text.opens_cons _ _)
    (by rw [String.toList_append]; exact Text.opens_cons _ _) hlist
  have hoffset := (String.append_right_inj ":0x").mp (String.toList_inj.mp hx)
  exact ⟨word_text_inj (String.toList_inj.mp hs), UInt16.toNat_inj.mp (Text.hex_inj hoffset)⟩

theorem register_text_inj (ho : o.kind = .register) (hp : p.kind = .register)
    (h : o.text = p.text) : o = p :=
  List.inj_on_of_nodup_map nodup_registers (mem_registers ho) (mem_registers hp) h

theorem number_text_inj (ho : o.Printed r v branch) (hp : p.Printed r w branch)
    (hko : o.kind = .number) (hkp : p.kind = .number) (h : o.text = p.text) : o = p := by
  have hlength : o.numberLength = p.numberLength := by
    rw [← length_text hko, ← length_text hkp, h]
  cases o with
  | reg8 | reg16 | seg | mem => exact nomatch hko
  | imm x a =>
    cases p with
    | reg8 | reg16 | seg | mem => exact nomatch hkp
    | imm y b =>
      cases a <;> cases b
      · have hhex := Text.hex_inj ((String.append_right_inj "0x").mp h)
        rw [Nat.mod_eq_of_lt (ho.2 rfl), Nat.mod_eq_of_lt (hp.2 rfl)] at hhex
        rw [UInt16.toNat_inj.mp hhex]
      · simp [numberLength] at hlength
      · simp [numberLength] at hlength
      · rw [word_text_inj h]
    | near t => exact absurd (ho.1.symm.trans hp) (by decide)
    | far t y => cases a <;> simp [numberLength] at hlength
  | near s =>
    cases p with
    | reg8 | reg16 | seg | mem => exact nomatch hkp
    | imm y b => exact absurd (hp.1.symm.trans ho) (by decide)
    | near t => rw [word_text_inj h]
    | far t y => simp [numberLength] at hlength
  | far s x =>
    cases p with
    | reg8 | reg16 | seg | mem => exact nomatch hkp
    | imm y b => cases b <;> simp [numberLength] at hlength
    | near t => simp [numberLength] at hlength
    | far t y =>
      obtain ⟨rfl, rfl⟩ := far_text_inj h
      rfl

theorem memory_text_inj {m k : MemoryRef} {a b : Width} (h : (mem m a).text = (mem k b).text) :
    a = b ∧ m.text = k.text := by
  cases a <;> cases b
  · exact ⟨rfl, (String.append_right_inj _).mp h⟩
  · simpa [text] using congrArg String.toList h
  · simpa [text] using congrArg String.toList h
  · exact ⟨rfl, (String.append_right_inj _).mp h⟩

/-- The text tells the operand, and an operand in memory tells the override. -/
theorem text_inj (ho : o.Printed r v branch) (hp : p.Printed r w branch) (h : o.text = p.text) :
    o = p ∧ (o.isMemory → v = w) := by
  have hkind : o.kind = p.kind := by rw [← kindOfText_text, h, kindOfText_text]
  cases hk : o.kind with
  | register =>
    constructor
    · exact register_text_inj hk (hkind ▸ hk) h
    · intro hm
      cases o with
      | mem m a => exact nomatch hk
      | _ => exact nomatch hm
  | number =>
    constructor
    · exact number_text_inj ho hp hk (hkind ▸ hk) h
    · intro hm
      cases o with
      | mem m a => exact nomatch hk
      | _ => exact nomatch hm
  | memory =>
    cases o with
    | mem m a =>
      cases p with
      | mem k b =>
        obtain ⟨rfl, htext⟩ := memory_text_inj h
        obtain ⟨_, _, rfl⟩ := ho
        obtain ⟨_, _, rfl⟩ := hp
        obtain ⟨rfl, hm⟩ := MemoryRef.bound_inj htext
        rw [hm]
        exact ⟨rfl, fun _ => rfl⟩
      | _ => exact nomatch hkind
    | _ => exact nomatch hk

end Inj

section Characters

theorem comma_not_mem_text (o : Operand) : ',' ∉ o.text.toList := by
  have hhex (width n : Nat) : ',' ∉ (Text.hex width n).toList :=
    Text.not_mem_hex width n (by decide)
  cases o with
  | reg8 r => cases r <;> decide
  | reg16 r => cases r <;> decide
  | seg s => cases s <;> decide
  | mem m w =>
    have hsegment : ',' ∉ m.segmentText.toList := by
      unfold MemoryRef.segmentText
      split
      next => cases m.segReg <;> decide
      next => decide
    have hlead : ',' ∉ (m.base.leadText m.signedDisplacement).toList :=
      AddressBase.leadText_of_leads (p := fun s => ',' ∉ s.toList) (by decide +kernel) _ _
    have hnumber : ',' ∉ m.numberText.toList := by
      unfold MemoryRef.numberText
      split
      next => simp [hhex]
      next => split <;> simp [hhex]
    cases w <;> simp [text, MemoryRef.text_eq, hsegment, hlead, hnumber]
  | imm v w => cases w <;> simp [text, hhex]
  | near target => simp [text, hhex]
  | far segment offset => simp [text, hhex]

/-- No operand looks like the beginning of the word that makes a branch a far one. -/
theorem head?_text_ne (o : Operand) : o.text.toList.head? ≠ some 'f' := by
  cases o with
  | reg8 r => cases r <;> decide
  | reg16 r => cases r <;> decide
  | seg s => cases s <;> decide
  | mem m w => cases w <;> simp [text]
  | imm v w => cases w <;> simp [text]
  | near target => simp [text]
  | far segment offset => simp [text]

end Characters

end Operand
end RealMode
