import Mathlib.Data.Nat.Digits.Lemmas
import Mathlib.Tactic.LinearCombination
import RealMode.Proofs.InstructionReach
import RealMode.Proofs.IntegerFlags
import RealMode.Proofs.LawfulBus
import RealMode.Proofs.ServedErrors

/-! # Packed decimals -/
namespace RealMode

structure IsPacked (b : UInt8) : Prop where
  high : b.toNat / 16 ≤ 9
  low : b.toNat % 16 ≤ 9

instance (b : UInt8) : Decidable (IsPacked b) :=
  decidable_of_iff (b.toNat / 16 ≤ 9 ∧ b.toNat % 16 ≤ 9)
    ⟨fun h => ⟨h.1, h.2⟩, fun h => ⟨h.high, h.low⟩⟩

def decimal (b : UInt8) : Nat := b.toNat / 16 * 10 + b.toNat % 16

def ofPacked (bs : List UInt8) : Nat := Nat.ofDigits 100 (bs.map decimal)

/-- The packed bytes of a number that `n` of them can hold. -/
structure ArePacked (n x : Nat) (bs : List UInt8) : Prop where
  length : bs.length = n
  packed : ∀ b ∈ bs, IsPacked b
  value : ofPacked bs = x

theorem IsPacked.decimal_lt {b : UInt8} (h : IsPacked b) : decimal b < 100 := by
  obtain ⟨hhigh, hlow⟩ := h
  rw [decimal]
  omega

theorem ofPacked_cons (b : UInt8) (bs : List UInt8) :
    ofPacked (b :: bs) = decimal b + 100 * ofPacked bs := by
  rw [ofPacked, List.map_cons, Nat.ofDigits_cons, ofPacked]

theorem ofPacked_lt {bs : List UInt8} (h : ∀ b ∈ bs, IsPacked b) :
    ofPacked bs < 100 ^ bs.length := by
  rw [← List.length_map (f := decimal)]
  apply Nat.ofDigits_lt_base_pow_length (by decide)
  intro x hx
  obtain ⟨b, hb, rfl⟩ := List.mem_map.mp hx
  exact (h b hb).decimal_lt

theorem IsPacked.decimal_inj {a b : UInt8} (ha : IsPacked a) (hb : IsPacked b)
    (h : decimal a = decimal b) : a = b := by
  obtain ⟨-, halow⟩ := ha
  obtain ⟨-, hblow⟩ := hb
  apply UInt8.toNat_inj.mp
  unfold decimal at h
  omega

theorem ArePacked.unique {n x : Nat} {as bs : List UInt8} (ha : ArePacked n x as)
    (hb : ArePacked n x bs) : as = bs := by
  induction as generalizing n x bs with
  | nil =>
    have hlength : bs.length = 0 := hb.length.trans ha.length.symm
    exact (List.length_eq_zero_iff.mp hlength).symm
  | cons a as ih =>
    obtain ⟨halength, hapacked, havalue⟩ := ha
    obtain ⟨hblength, hbpacked, hbvalue⟩ := hb
    cases bs with
    | nil => exact absurd (halength.trans hblength.symm) (by simp)
    | cons b bs =>
      obtain ⟨ha, has⟩ := List.forall_mem_cons.mp hapacked
      obtain ⟨hb, hbs⟩ := List.forall_mem_cons.mp hbpacked
      have hadecimal := ha.decimal_lt
      have hbdecimal := hb.decimal_lt
      rw [ofPacked_cons] at havalue hbvalue
      obtain rfl : a = b := ha.decimal_inj hb (by omega)
      have hrest : ArePacked bs.length (ofPacked bs) as :=
        ⟨Nat.succ.inj (halength.trans hblength.symm), has, by omega⟩
      rw [ih hrest ⟨rfl, hbs, rfl⟩]

theorem low_wordOfByte (b : UInt8) : Width.byte.low (wordOfByte b) = b.toNat := by
  have hb := b.toNat_lt
  rw [Width.low, toNat_wordOfByte]
  exact Nat.mod_eq_of_lt hb

theorem toNat_lowByte_of_lt {w : UInt16} (h : w.toNat < 256) : (lowByte w).toNat = w.toNat := by
  simp only [lowByte, UInt8.toNat_ofNat']
  omega

section Correction

variable {a b s r : UInt8} {k : Nat} {low high : Bool} (ha : IsPacked a) (hb : IsPacked b)
  (hk : k ≤ 1)
include ha hb hk

/-- The sum `s` of two bytes and a carry becomes decimal if 6 is added to each digit that has gone
beyond 9. -/
theorem decimal_sum (hs : s.toNat = (a.toNat + b.toNat + k) % 256)
    (hlow : low ↔ 9 < s.toNat % 16 ∨ 16 ≤ a.toNat % 16 + b.toNat % 16 + k)
    (hhigh : high ↔ 0x99 < s.toNat ∨ 256 ≤ a.toNat + b.toNat + k)
    (hr : (r.toNat : Int) = (s.toNat + (0x06 * low.toNat + 0x60 * high.toNat : Int)) % 256) :
    IsPacked r ∧
      decimal r + 1 * (100 * high.toNat) = (decimal a + 1 * (decimal b + k) : Int) := by
  obtain ⟨hahigh, halow⟩ := ha
  obtain ⟨hbhigh, hblow⟩ := hb
  unfold decimal
  -- Once it is known which digits are adjusted, the rest is arithmetic of the digits.
  cases low <;> cases high <;>
    simp only [Bool.false_eq_true, false_iff, true_iff, Bool.toNat_false, Bool.toNat_true] at * <;>
    exact ⟨⟨by omega, by omega⟩, by omega⟩

/-- So does the difference, if 6 is taken from each digit that has borrowed. -/
theorem decimal_difference (hs : (s.toNat : Int) = ((a.toNat : Int) - b.toNat - k) % 256)
    (hlow : low ↔ 9 < s.toNat % 16 ∨ a.toNat % 16 < b.toNat % 16 + k)
    (hhigh : high ↔ 0x99 < s.toNat ∨ a.toNat < b.toNat + k)
    (hr : (r.toNat : Int) = (s.toNat + -(0x06 * low.toNat + 0x60 * high.toNat : Int)) % 256) :
    IsPacked r ∧
      decimal r + -1 * (100 * high.toNat) = (decimal a + -1 * (decimal b + k) : Int) := by
  obtain ⟨hahigh, halow⟩ := ha
  obtain ⟨hbhigh, hblow⟩ := hb
  unfold decimal
  cases low <;> cases high <;>
    simp only [Bool.false_eq_true, false_iff, true_iff, Bool.toNat_false, Bool.toNat_true] at * <;>
    exact ⟨⟨by omega, by omega⟩, by omega⟩

end Correction

namespace Cpu

variable {M H : Type} (c : Cpu M H)

theorem lowAdjust_iff :
    c.lowAdjust ↔ 9 < (c.regs.get8 .al).toNat % 16 ∨ c.flags.get .auxiliary := by
  simp [lowAdjust]

theorem carry_decimalAdjust (step : Int → Int) : (c.decimalAdjust step).flags.get .carry =
    (decide (0x99 < (c.regs.get8 .al).toNat) || c.flags.get .carry) := by
  simp [decimalAdjust, setFlags, Flags.ofResult]

theorem carry_decimalAdjust_iff (step : Int → Int) : (c.decimalAdjust step).flags.get .carry ↔
    0x99 < (c.regs.get8 .al).toNat ∨ c.flags.get .carry := by
  rw [carry_decimalAdjust, Bool.or_eq_true, decide_eq_true_eq]

/-- The low digit is moved by 6 and the high digit by as much, and CF says whether the high digit
was. -/
theorem al_decimalAdjust (step : Int → Int) :
    (((c.decimalAdjust step).regs.get8 .al).toNat : Int) =
      ((c.regs.get8 .al).toNat + step (0x06 * c.lowAdjust.toNat +
        0x60 * ((c.decimalAdjust step).flags.get .carry).toNat)) % 256 := by
  have hcorrection (low high : Bool) : (if low then 0x06 else 0) + (if high then 0x60 else 0) =
      (0x06 * low.toNat + 0x60 * high.toNat : Int) := by
    cases low <;> cases high <;> rfl
  rw [carry_decimalAdjust, ← hcorrection]
  simp only [decimalAdjust, setFlags, setReg8, Registers.get8_set8, ↓reduceIte, toNat_byte_ofInt]
  omega

/-- What an instruction does that combines AL with a byte. -/
def accumulate (c : Cpu M H) (op : AluOp) (b : UInt8) : Cpu M H :=
  let (r, f) := op.apply c.flags .byte (wordOfByte (c.regs.get8 .al)) (wordOfByte b)
  (c.setFlags f).setReg8 .al (lowByte r)

/-- AL, CF and AF after the sum of two bytes and a carry. -/
structure AddsBytes (c : Cpu M H) (x y k : Nat) : Prop where
  al : (c.regs.get8 .al).toNat = (x + y + k) % 256
  carry : c.flags.get .carry ↔ 256 ≤ x + y + k
  auxiliary : c.flags.get .auxiliary ↔ 16 ≤ x % 16 + y % 16 + k

structure SubtractsBytes (c : Cpu M H) (x y k : Nat) : Prop where
  al : ((c.regs.get8 .al).toNat : Int) = ((x : Int) - y - k) % 256
  carry : c.flags.get .carry ↔ x < y + k
  auxiliary : c.flags.get .auxiliary ↔ x % 16 < y % 16 + k

section Bytes

variable {c : Cpu M H} {op : AluOp} {b : UInt8} {k : Bool}

theorem al_accumulate : (c.accumulate op b).regs.get8 .al =
    lowByte (op.apply c.flags .byte (wordOfByte (c.regs.get8 .al)) (wordOfByte b)).1 := by
  simp only [accumulate, setReg8, Registers.get8_set8, ↓reduceIte]

theorem addsBytes_accumulate
    (hop : ∀ v w, op.apply c.flags .byte v w = c.flags.addCarry .byte v w k) :
    (c.accumulate op b).AddsBytes (c.regs.get8 .al).toNat b.toNat k.toNat := by
  have hsum := c.flags.isSum_addCarry .byte (wordOfByte (c.regs.get8 .al)) (wordOfByte b) k
  have hcarry := c.flags.carry_addCarry .byte (wordOfByte (c.regs.get8 .al)) (wordOfByte b) k
  have hvalue := hsum.value
  have hauxiliary := hsum.auxiliary
  simp only [low_wordOfByte, Width.bits, Nat.reducePow] at hvalue hauxiliary hcarry
  constructor
  · rw [al_accumulate, hop, toNat_lowByte_of_lt (by omega), hvalue]
  · rw [accumulate, hop]
    exact hcarry
  · rw [accumulate, hop]
    exact hauxiliary

theorem subtractsBytes_accumulate
    (hop : ∀ v w, op.apply c.flags .byte v w = c.flags.subBorrow .byte v w k) :
    (c.accumulate op b).SubtractsBytes (c.regs.get8 .al).toNat b.toNat k.toNat := by
  have hdifference :=
    c.flags.isDifference_subBorrow .byte (wordOfByte (c.regs.get8 .al)) (wordOfByte b) k
  have hcarry := c.flags.carry_subBorrow .byte (wordOfByte (c.regs.get8 .al)) (wordOfByte b) k
  have hvalue := hdifference.value
  have hauxiliary := hdifference.auxiliary
  simp only [low_wordOfByte, Width.bits, Int.reducePow] at hvalue hauxiliary hcarry
  constructor
  · rw [al_accumulate, hop, toNat_lowByte_of_lt (by omega), hvalue]
  · rw [accumulate, hop]
    exact hcarry
  · rw [accumulate, hop]
    exact hauxiliary

end Bytes

/-- AL and CF after two bytes have been combined: by addition with `σ = 1`, by subtraction with
`σ = -1`. -/
structure Combines (σ : Int) (c : Cpu M H) (x y k : Nat) : Prop where
  packed : IsPacked (c.regs.get8 .al)
  value : decimal (c.regs.get8 .al) + σ * (100 * (c.flags.get .carry).toNat) = x + σ * (y + k)

section Adjustments

variable {c} {a b : UInt8} {k : Nat} (ha : IsPacked a) (hb : IsPacked b) (hk : k ≤ 1)
include ha hb hk

theorem combines_daa (h : c.AddsBytes a.toNat b.toNat k) :
    (c.decimalAdjust id).Combines 1 (decimal a) (decimal b) k := by
  obtain ⟨hal, hcarry, hauxiliary⟩ := h
  obtain ⟨hpacked, hvalue⟩ := decimal_sum ha hb hk hal
    (c.lowAdjust_iff.trans (or_congr_right hauxiliary))
    ((c.carry_decimalAdjust_iff id).trans (or_congr_right hcarry)) (c.al_decimalAdjust id)
  exact ⟨hpacked, hvalue⟩

theorem combines_das (h : c.SubtractsBytes a.toNat b.toNat k) :
    (c.decimalAdjust Neg.neg).Combines (-1) (decimal a) (decimal b) k := by
  obtain ⟨hal, hcarry, hauxiliary⟩ := h
  obtain ⟨hpacked, hvalue⟩ := decimal_difference ha hb hk hal
    (c.lowAdjust_iff.trans (or_congr_right hauxiliary))
    ((c.carry_decimalAdjust_iff Neg.neg).trans (or_congr_right hcarry)) (c.al_decimalAdjust Neg.neg)
  exact ⟨hpacked, hvalue⟩

end Adjustments

end Cpu

/-- A pair of packed bytes in a program: the program brings the first into AL and the second where
an operand names it, and does not touch CF in doing so. -/
structure PackedPair (M H : Type) [Bus M] where
  first : UInt8
  second : UInt8
  isPacked_first : IsPacked first
  isPacked_second : IsPacked second
  fetch : Exec M H Operand
  fetches : ∀ c, ∃ src d, fetch c = .ok src d ∧ d.regs.get8 .al = first ∧
    d.value src = wordOfByte second ∧ d.flags.get .carry = c.flags.get .carry

/-- A pair of constants, the first in a MOV and the second in the instruction that combines them. -/
def PackedPair.immediate (M H : Type) [Bus M] [HostService M H] {a b : UInt8} (ha : IsPacked a)
    (hb : IsPacked b) : PackedPair M H where
  first := a
  second := b
  isPacked_first := ha
  isPacked_second := hb
  fetch := do
    (Instruction.bare .mov [.reg8 .al, .imm (wordOfByte a) .byte] 2).execute
    return .imm (wordOfByte b) .byte
  fetches c := by
    have hvalue (c : Cpu M H) (v : UInt8) :
        c.value (.imm (wordOfByte v) .byte) = wordOfByte v := by
      rw [Cpu.value, Width.truncate, low_wordOfByte]
      rfl
    refine ⟨.imm (wordOfByte b) .byte, c.setReg8 .al a, ?_, ?_, hvalue _ b, rfl⟩
    · have hmov : ((Instruction.bare .mov [.reg8 .al, .imm (wordOfByte a) .byte] 2).execute :
          Exec M H Unit) c = .ok () (c.setReg8 .al a) := by
        show (Cpu.store (.reg8 .al) (c.value (.imm (wordOfByte a) .byte)) : Exec M H Unit) c = _
        rw [hvalue, Cpu.store, lowByte_wordOfByte]
        rfl
      exact bind_of_ok hmov
    · simp only [Cpu.setReg8, Registers.get8_set8, ↓reduceIte]

section Chains

variable {M H : Type} [Bus M] [HostService M H]

/-- Combines a pair by an instruction and adjusts what it has left in AL. -/
def decimalStep (op : AluOp) (adjust : Op) (p : PackedPair M H) : Exec M H UInt8 := do
  let src ← p.fetch
  (Instruction.bare (.alu op) [.reg8 .al, src] 2).execute
  (Instruction.bare adjust [] 1).execute
  return (← get).regs.get8 .al

def decimalChain (first next : AluOp) (adjust : Op) :
    List (PackedPair M H) → Exec M H (List UInt8)
  | [] => return []
  | p :: ps => do
    let r ← decimalStep first adjust p
    let rs ← decimalChain next next adjust ps
    return r :: rs

variable {c : Cpu M H}

theorem execute_alu_al {op : AluOp} (hop : op ≠ .cmp) {src : Operand} {b : UInt8}
    (hsrc : c.value src = wordOfByte b) :
    ((Instruction.bare (.alu op) [.reg8 .al, src] 2).execute : Exec M H Unit) c =
      .ok () (c.accumulate op b) := by
  show (((modifyGet fun c : Cpu M H =>
      ((op.apply c.flags .byte (c.value (.reg8 .al)) (c.value src)).1,
        c.setFlags (op.apply c.flags .byte (c.value (.reg8 .al)) (c.value src)).2)) >>= fun r =>
    if op ≠ .cmp then Cpu.store (.reg8 .al) r else pure ()) : Exec M H Unit) c = _
  simp only [if_pos hop]
  rw [Cpu.accumulate, ← hsrc]
  rfl

theorem decimalStep_eq {op : AluOp} (hop : op ≠ .cmp) (adjust : Op) (step : Int → Int)
    (hadjust : ∀ c : Cpu M H, ((Instruction.bare adjust [] 1).execute : Exec M H Unit) c =
      .ok () (c.decimalAdjust step)) (p : PackedPair M H) (c : Cpu M H) :
    ∃ d : Cpu M H, d.regs.get8 .al = p.first ∧ d.flags.get .carry = c.flags.get .carry ∧
      let e := (d.accumulate op p.second).decimalAdjust step
      decimalStep op adjust p c = .ok (e.regs.get8 .al) e := by
  obtain ⟨src, d, hd, hal, hsrc, hcarry⟩ := p.fetches c
  refine ⟨d, hal, hcarry, ?_⟩
  have hop := execute_alu_al hop hsrc
  exact (bind_of_ok hd).trans ((bind_of_ok hop).trans (bind_of_ok (hadjust _)))

/-- An instruction and its adjustment combine every pair, with `carryIn` of CF as the carry that
they take in. -/
def CombinesPairs (M H : Type) [Bus M] [HostService M H] (σ : Int) (op : AluOp) (adjust : Op)
    (carryIn : Bool → Bool) : Prop :=
  ∀ (p : PackedPair M H) (c : Cpu M H), ∃ e : Cpu M H,
    decimalStep op adjust p c = .ok (e.regs.get8 .al) e ∧
      e.Combines σ (decimal p.first) (decimal p.second) (carryIn (c.flags.get .carry)).toNat

theorem combinesPairs_daa {op : AluOp} {carryIn : Bool → Bool} (hne : op ≠ .cmp)
    (hop : ∀ f v w, op.apply f .byte v w = f.addCarry .byte v w (carryIn (f.get .carry))) :
    CombinesPairs M H 1 op .daa carryIn := by
  intro p c
  obtain ⟨d, hal, hcarry, hstep⟩ := decimalStep_eq hne .daa id (fun _ => rfl) p c
  refine ⟨_, hstep, ?_⟩
  have hadds := Cpu.addsBytes_accumulate (b := p.second) (hop d.flags)
  rw [hal, hcarry] at hadds
  exact Cpu.combines_daa p.isPacked_first p.isPacked_second (Bool.toNat_le _) hadds

theorem combinesPairs_das {op : AluOp} {carryIn : Bool → Bool} (hne : op ≠ .cmp)
    (hop : ∀ f v w, op.apply f .byte v w = f.subBorrow .byte v w (carryIn (f.get .carry))) :
    CombinesPairs M H (-1) op .das carryIn := by
  intro p c
  obtain ⟨d, hal, hcarry, hstep⟩ := decimalStep_eq hne .das Neg.neg (fun _ => rfl) p c
  refine ⟨_, hstep, ?_⟩
  have hsubtracts := Cpu.subtractsBytes_accumulate (b := p.second) (hop d.flags)
  rw [hal, hcarry] at hsubtracts
  exact Cpu.combines_das p.isPacked_first p.isPacked_second (Bool.toNat_le _) hsubtracts

/-- The bytes and the carry that come of combining pairs, with a carry `k` taken in. -/
structure CombinesAll (σ : Int) (ps : List (PackedPair M H)) (k : Nat) (rs : List UInt8)
    (d : Cpu M H) : Prop where
  length : rs.length = ps.length
  packed : ∀ r ∈ rs, IsPacked r
  value : ofPacked rs + σ * (100 ^ ps.length * (d.flags.get .carry).toNat) =
    ofPacked (ps.map PackedPair.first) + σ * (ofPacked (ps.map PackedPair.second) + k)

variable {σ : Int} {first next : AluOp} {adjust : Op} {carryIn : Bool → Bool}

omit [HostService M H] in
theorem CombinesAll.cons {p : PackedPair M H} {ps : List (PackedPair M H)} {k : Nat}
    {rs : List UInt8} {d e : Cpu M H}
    (hp : d.Combines σ (decimal p.first) (decimal p.second) k)
    (hps : CombinesAll σ ps (d.flags.get .carry).toNat rs e) :
    CombinesAll σ (p :: ps) k (d.regs.get8 .al :: rs) e := by
  constructor
  · rw [List.length_cons, List.length_cons, hps.length]
  · exact List.forall_mem_cons.mpr ⟨hp.packed, hps.packed⟩
  · have hfirst := hp.value
    have hrest := hps.value
    simp only [List.map_cons, List.length_cons, ofPacked_cons, pow_succ]
    push_cast
    linear_combination hfirst + 100 * hrest

theorem decimalChain_cons (hfirst : CombinesPairs M H σ first adjust carryIn)
    {p : PackedPair M H} {ps : List (PackedPair M H)} {c : Cpu M H}
    (hps : ∀ d : Cpu M H, ∃ rs e, decimalChain next next adjust ps d = .ok rs e ∧
      CombinesAll σ ps (d.flags.get .carry).toNat rs e) :
    ∃ rs e, decimalChain first next adjust (p :: ps) c = .ok rs e ∧
      CombinesAll σ (p :: ps) (carryIn (c.flags.get .carry)).toNat rs e := by
  obtain ⟨d, hd, hcombines⟩ := hfirst p c
  obtain ⟨rs, e, he, hall⟩ := hps d
  refine ⟨d.regs.get8 .al :: rs, e, ?_, .cons hcombines hall⟩
  exact (bind_of_ok hd).trans (bind_of_ok he)

theorem decimalChain_run (hnext : CombinesPairs M H σ next adjust id)
    (ps : List (PackedPair M H)) (c : Cpu M H) :
    ∃ rs d, decimalChain next next adjust ps c = .ok rs d ∧
      CombinesAll σ ps (c.flags.get .carry).toNat rs d := by
  induction ps generalizing c with
  | nil =>
    refine ⟨[], c, rfl, rfl, fun _ hr => absurd hr List.not_mem_nil, ?_⟩
    simp [ofPacked]
  | cons p ps ih => exact decimalChain_cons hnext ih

section Results

variable {ps : List (PackedPair M H)} {rs : List UInt8} {d : Cpu M H}

omit [HostService M H] in
theorem CombinesAll.ofPacked_lt {k : Nat} (h : CombinesAll σ ps k rs d) :
    ofPacked rs < 100 ^ ps.length := by
  rw [← h.length]
  exact RealMode.ofPacked_lt h.packed

omit [HostService M H] in
theorem CombinesAll.sum (h : CombinesAll 1 ps 0 rs d) :
    let a := ofPacked (ps.map PackedPair.first)
    let b := ofPacked (ps.map PackedPair.second)
    ArePacked ps.length ((a + b) % 100 ^ ps.length) rs ∧
      (d.flags.get .carry ↔ 100 ^ ps.length ≤ a + b) := by
  intro a b
  have hlt := h.ofPacked_lt
  have hsum : ofPacked rs + 100 ^ ps.length * (d.flags.get .carry).toNat = a + b := by
    have hvalue := h.value
    simp only [one_mul, Nat.cast_zero, add_zero] at hvalue
    exact_mod_cast hvalue
  rw [← hsum]
  refine ⟨⟨h.length, h.packed, ?_⟩, ?_⟩
  · rw [Nat.add_mul_mod_self_left, Nat.mod_eq_of_lt hlt]
  · cases d.flags.get .carry
    · simpa using hlt
    · simp

omit [HostService M H] in
theorem CombinesAll.difference (h : CombinesAll (-1) ps 0 rs d) :
    let a := ofPacked (ps.map PackedPair.first)
    let b := ofPacked (ps.map PackedPair.second)
    ArePacked ps.length ((a - b : Int) % 100 ^ ps.length).toNat rs ∧
      (d.flags.get .carry ↔ a < b) := by
  intro a b
  have hlt : (ofPacked rs : Int) < 100 ^ ps.length := by exact_mod_cast h.ofPacked_lt
  have hdifference :
      (a : Int) - b = ofPacked rs - 100 ^ ps.length * (d.flags.get .carry).toNat := by
    have hvalue := h.value
    rw [Nat.cast_zero, add_zero] at hvalue
    linear_combination -hvalue
  refine ⟨⟨h.length, h.packed, ?_⟩, ?_⟩
  · rw [hdifference, Int.sub_mul_emod_self_left, Int.emod_eq_of_lt (by omega) hlt,
      Int.toNat_natCast]
  · cases hcarry : d.flags.get .carry
    · simp only [hcarry, Bool.toNat_false] at hdifference
      simp only [Bool.false_eq_true, false_iff]
      omega
    · simp only [hcarry, Bool.toNat_true] at hdifference
      simp only [true_iff]
      omega

end Results

/-- Chains of ADD and ADC with DAA and of SUB and SBB with DAS are exact on packed decimals of any
length, modulo their range and in CF at the end. -/
theorem decimal_chains_exact (p : PackedPair M H) (ps : List (PackedPair M H)) (c : Cpu M H) :
    let n := (p :: ps).length
    let a := ofPacked ((p :: ps).map PackedPair.first)
    let b := ofPacked ((p :: ps).map PackedPair.second)
    (∃ rs d, decimalChain .add .adc .daa (p :: ps) c = .ok rs d ∧
      ArePacked n ((a + b) % 100 ^ n) rs ∧ (d.flags.get .carry ↔ 100 ^ n ≤ a + b)) ∧
    ∃ rs d, decimalChain .sub .sbb .das (p :: ps) c = .ok rs d ∧
      ArePacked n ((a - b : Int) % 100 ^ n).toNat rs ∧ (d.flags.get .carry ↔ a < b) := by
  intro n a b
  have hadd : CombinesPairs M H 1 .add .daa fun _ => false :=
    combinesPairs_daa (by decide) fun _ _ _ => rfl
  have hadc : CombinesPairs M H 1 .adc .daa id := combinesPairs_daa (by decide) fun _ _ _ => rfl
  have hsub : CombinesPairs M H (-1) .sub .das fun _ => false :=
    combinesPairs_das (by decide) fun _ _ _ => rfl
  have hsbb : CombinesPairs M H (-1) .sbb .das id :=
    combinesPairs_das (by decide) fun _ _ _ => rfl
  constructor
  · obtain ⟨rs, d, hd, hall⟩ := decimalChain_cons hadd (decimalChain_run hadc ps)
    exact ⟨rs, d, hd, hall.sum⟩
  · obtain ⟨rs, d, hd, hall⟩ := decimalChain_cons hsub (decimalChain_run hsbb ps)
    exact ⟨rs, d, hd, hall.difference⟩

/-- 9958 + 1765 = 11723, of which four digits and the carry remain. -/
theorem decimal_chains_exact_four_digits :
    let c : Cpu Ram Empty := ⟨.zero, .reset, .blank, .empty, 0, false, .i8086, .silent⟩
    let p := PackedPair.immediate Ram Empty (show IsPacked 0x58 by decide)
      (show IsPacked 0x65 by decide)
    let q := PackedPair.immediate Ram Empty (show IsPacked 0x99 by decide)
      (show IsPacked 0x17 by decide)
    ∃ d, decimalChain .add .adc .daa [p, q] c = .ok [0x23, 0x17] d ∧ d.flags.get .carry := by
  intro c p q
  obtain ⟨⟨rs, d, hd, hrs, hcarry⟩, -⟩ := decimal_chains_exact p [q] c
  have hresult : ArePacked 2 ((ofPacked [0x58, 0x99] + ofPacked [0x65, 0x17]) % 100 ^ 2)
      [0x23, 0x17] := by
    refine ⟨rfl, ?_, by decide⟩
    rw [List.forall_mem_cons, List.forall_mem_singleton]
    exact ⟨by decide, by decide⟩
  obtain rfl := ArePacked.unique hrs hresult
  exact ⟨d, hd, hcarry.mpr (by decide)⟩

end Chains
end RealMode
