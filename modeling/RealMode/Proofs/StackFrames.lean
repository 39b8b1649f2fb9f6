import RealMode.Execute
import RealMode.Proofs.SegmentedAccess
import RealMode.Proofs.ServedErrors

/-! # Stack frames -/
namespace RealMode

def wordsBelow (top : UInt16) (n : Nat) : UInt16 := top - UInt16.ofNat (2 * n)

structure Apart (a b : UInt16) : Prop where
  same : a ≠ b
  above : a ≠ b + 1
  below : a + 1 ≠ b

section Offsets

variable (top : UInt16)

theorem wordsBelow_zero : wordsBelow top 0 = top := by
  simp [wordsBelow]

theorem wordsBelow_succ (n : Nat) : wordsBelow top (n + 1) = wordsBelow top n - 2 := by
  apply UInt16.toNat_inj.mp
  simp only [wordsBelow, UInt16.toNat_sub, UInt16.toNat_ofNat', UInt16.toNat_ofNat]
  omega

theorem wordsBelow_one : wordsBelow top 1 = top - 2 := by
  rw [wordsBelow_succ, wordsBelow_zero]

theorem wordsBelow_succ_add_two (n : Nat) : wordsBelow top (n + 1) + 2 = wordsBelow top n := by
  rw [wordsBelow_succ, UInt16.sub_add_cancel]

theorem wordsBelow_wordsBelow (m n : Nat) :
    wordsBelow (wordsBelow top m) n = wordsBelow top (m + n) := by
  induction n with
  | zero => exact wordsBelow_zero _
  | succ n ih => rw [wordsBelow_succ, ih, ← Nat.add_assoc, wordsBelow_succ]

theorem wordsBelow_sub_two (n : Nat) : wordsBelow (top - 2) n = wordsBelow top (n + 1) := by
  rw [← wordsBelow_one, wordsBelow_wordsBelow, Nat.add_comm]

/-- Half as many words as a segment has bytes share none of them. -/
theorem apart_wordsBelow {m n : Nat} (hm : m < 0x8000) (hn : n < 0x8000) (hne : m ≠ n) :
    Apart (wordsBelow top m) (wordsBelow top n) := by
  constructor <;>
    · intro h
      have htoNat := congrArg UInt16.toNat h
      simp only [wordsBelow, UInt16.toNat_add, UInt16.toNat_sub, UInt16.toNat_ofNat',
        UInt16.toNat_ofNat] at htoNat
      omega

end Offsets

namespace Cpu

variable {M H : Type} [Bus M]

def stackWord (c : Cpu M H) (offset : UInt16) : UInt16 := Bus.getWord c.memory c.regs.ss offset

/-- The state `d` has come from `c` by pushing some words, the first of them first. -/
structure Stacks (c d : Cpu M H) (vs : List UInt16) : Prop where
  ss : d.regs.ss = c.regs.ss
  sp : d.regs.sp = wordsBelow c.regs.sp vs.length
  words : ∀ k (hk : k < vs.length), d.stackWord (wordsBelow c.regs.sp (k + 1)) = vs[k]
  others : ∀ o, (∀ k < vs.length, Apart o (wordsBelow c.regs.sp (k + 1))) →
    d.stackWord o = c.stackWord o

section Push

variable [LawfulMemory M] (c : Cpu M H) (v : UInt16)

theorem stackWord_push_self : (c.push v).stackWord (c.regs.sp - 2) = v :=
  Bus.getWord_setWord _ _ _ _

theorem stackWord_push_of_apart {o : UInt16} (h : Apart o (c.regs.sp - 2)) :
    (c.push v).stackWord o = c.stackWord o :=
  Bus.getWord_setWord_of_apart _ _ h.same h.above h.below

omit [LawfulMemory M] in
theorem Stacks.refl : c.Stacks c [] :=
  ⟨rfl, (wordsBelow_zero _).symm, fun _ hk => absurd hk (Nat.not_lt_zero _), fun _ _ => rfl⟩

variable {c} {d : Cpu M H} {vs : List UInt16}

theorem Stacks.push (h : Stacks c d vs) (hlt : vs.length < 0x7FFF) (v : UInt16) :
    Stacks c (d.push v) (vs ++ [v]) := by
  have hlength : (vs ++ [v]).length = vs.length + 1 := List.length_append
  have hplace : d.regs.sp - 2 = wordsBelow c.regs.sp (vs.length + 1) := by
    rw [h.sp, wordsBelow_succ]
  constructor
  · exact h.ss
  · rw [hlength, ← hplace]
    rfl
  · intro k hk
    rcases Nat.lt_or_eq_of_le (Nat.le_of_lt_succ (hlength ▸ hk)) with hold | rfl
    · have hapart := apart_wordsBelow c.regs.sp (m := k + 1) (n := vs.length + 1) (by omega)
        (by omega) (by omega)
      rw [stackWord_push_of_apart _ _ (hplace ▸ hapart), h.words k hold,
        List.getElem_append_left hold]
    · rw [← hplace, stackWord_push_self, List.getElem_concat_length rfl]
  · intro o ho
    have hlast : Apart o (d.regs.sp - 2) := hplace ▸ ho vs.length (by omega)
    rw [stackWord_push_of_apart _ _ hlast]
    exact h.others o fun k hk => ho k (by omega)

end Push

section Registers

variable (c : Cpu M H) {a b : Reg16}

theorem get_push (h : a ≠ .sp) (v : UInt16) : (c.push v).regs.get a = c.regs.get a := by
  cases a <;> first | rfl | exact absurd rfl h

theorem get_foldl_push (h : a ≠ .sp) (vs : List UInt16) :
    (vs.foldl push c).regs.get a = c.regs.get a := by
  induction vs generalizing c with
  | nil => rfl
  | cons v vs ih => rw [List.foldl_cons, ih, get_push c h]

theorem foldl_push_get {rs : List Reg16} (h : ∀ r ∈ rs, r ≠ .sp) :
    rs.foldl (fun c r => c.push (c.regs.get r)) c = (rs.map c.regs.get).foldl push c := by
  induction rs generalizing c with
  | nil => rfl
  | cons r rs ih =>
    obtain ⟨-, hrs⟩ := List.forall_mem_cons.mp h
    have hsame : rs.map (c.push (c.regs.get r)).regs.get = rs.map c.regs.get :=
      List.map_congr_left fun a ha => get_push c (hrs a ha) _
    rw [List.foldl_cons, ih _ hrs, hsame, List.map_cons, List.foldl_cons]

theorem stackWord_popReg (o : UInt16) : (c.popReg a).stackWord o = c.stackWord o := by
  cases a <;> rfl

theorem sp_popReg (h : a ≠ .sp) : (c.popReg a).regs.sp = c.regs.sp + 2 := by
  cases a <;> first | rfl | exact absurd rfl h

omit [Bus M] in
theorem get_drop (h : a ≠ .sp) : c.drop.regs.get a = c.regs.get a := by
  cases a <;> first | rfl | exact absurd rfl h

theorem get_popReg (h : b ≠ .sp) :
    (c.popReg a).regs.get b = if a = b then c.stackWord c.regs.sp else c.regs.get b := by
  show (c.drop.regs.set a _).get b = _
  rw [Registers.get_set, get_drop c h]
  rfl

end Registers

section General

def generals (c : Cpu M H) : List UInt16 := Reg16.all.map c.regs.get

def withRegs (c : Cpu M H) (r : Registers) : Cpu M H :=
  { c with regs := { r with sp := c.regs.sp, ss := c.regs.ss } }

theorem pushAll_eq (c : Cpu M H) : c.pushAll = c.generals.foldl push c := by
  have hfirst : ∀ r ∈ [Reg16.ax, .cx, .dx, .bx], r ≠ .sp := by decide
  have hlast : ∀ r ∈ [Reg16.bp, .si, .di], r ≠ .sp := by decide
  have hkept : ∀ r ∈ [Reg16.bp, .si, .di],
      ((([Reg16.ax, .cx, .dx, .bx].map c.regs.get).foldl push c).push c.regs.sp).regs.get r =
        c.regs.get r := by
    intro r hr
    rw [get_push _ (hlast r hr), get_foldl_push _ (hlast r hr)]
  simp only [pushAll]
  rw [foldl_push_get c hfirst, foldl_push_get _ hlast, List.map_congr_left hkept]
  simp only [generals, Reg16.all, List.map_cons, List.map_nil, List.foldl_cons, List.foldl_nil,
    Registers.get]

/-- On the way from the stack that PUSHA leaves, with `k` words still on it and the registers `rs`
restored. -/
structure Unwinds (c d : Cpu M H) (k : Nat) (rs : List Reg16) : Prop where
  words : ∀ j (hj : j < 8), d.stackWord (wordsBelow c.regs.sp (j + 1)) = c.generals[j]
  sp : d.regs.sp = wordsBelow c.regs.sp k
  restored : ∀ r ∈ rs, r ≠ .sp → d.regs.get r = c.regs.get r

namespace Unwinds

variable {c d : Cpu M H} {k : Nat} {rs : List Reg16} (h : Unwinds c d (k + 1) rs)
include h

theorem drop : Unwinds c d.drop k rs := by
  constructor
  · exact h.words
  · show d.regs.sp + 2 = _
    rw [h.sp, wordsBelow_succ_add_two]
  · intro r hr hne
    rw [get_drop d hne, h.restored r hr hne]

theorem popReg (a : Reg16) (ha : a ≠ .sp) (hk : Reg16.all[k]? = some a) :
    Unwinds c (d.popReg a) k (a :: rs) := by
  obtain ⟨hlt, hvalue⟩ := List.getElem?_eq_some_iff.mp hk
  constructor
  · intro j hj
    rw [stackWord_popReg, h.words j hj]
  · rw [sp_popReg d ha, h.sp, wordsBelow_succ_add_two]
  · intro r hr hne
    rw [get_popReg d hne]
    by_cases hself : a = r
    · rw [if_pos hself, h.sp, h.words k hlt, ← hself, ← hvalue]
      exact List.getElem_map _
    · rcases List.mem_cons.mp hr with heq | hold
      · exact absurd heq.symm hself
      · rw [if_neg hself, h.restored r hold hne]

end Unwinds

variable [LawfulMemory M] {c d : Cpu M H}

theorem Stacks.foldl_push {vs : List UInt16} (h : Stacks c d vs) (ws : List UInt16)
    (hlt : vs.length + ws.length ≤ 0x7FFF) : Stacks c (ws.foldl Cpu.push d) (vs ++ ws) := by
  induction ws generalizing d vs with
  | nil =>
    rw [List.append_nil]
    exact h
  | cons w ws ih =>
    rw [List.length_cons] at hlt
    rw [List.foldl_cons, List.append_cons]
    apply ih (h.push (by omega) w)
    rw [List.length_append, List.length_singleton]
    omega

theorem stacks_pushAll (c : Cpu M H) : Stacks c c.pushAll c.generals := by
  have hlength : c.generals.length = 8 := rfl
  rw [pushAll_eq]
  exact (Stacks.refl c).foldl_push c.generals (by rw [hlength]; decide)

omit [LawfulMemory M] in
theorem get_popAll (h : Stacks c d c.generals) (a : Reg16) :
    d.popAll.regs.get a = c.regs.get a := by
  have hstart : Unwinds c d 8 [] := ⟨h.words, h.sp, fun _ hr => absurd hr List.not_mem_nil⟩
  have hlow := ((hstart.popReg .di (by decide) rfl).popReg .si (by decide) rfl).popReg .bp
    (by decide) rfl
  have hall : Unwinds c d.popAll 0 [.ax, .cx, .dx, .bx, .bp, .si, .di] :=
    (((hlow.drop.popReg .bx (by decide) rfl).popReg .dx (by decide) rfl).popReg .cx (by decide)
      rfl).popReg .ax (by decide) rfl
  by_cases ha : a = .sp
  · subst ha
    exact hall.sp.trans (wordsBelow_zero _)
  · exact hall.restored a (by cases a <;> simp at ha ⊢) ha

omit [LawfulMemory M] in
theorem Stacks.withRegs {vs : List UInt16} (h : Stacks c d vs) (r : Registers) :
    Stacks c (d.withRegs r) vs :=
  ⟨h.ss, h.sp, h.words, h.others⟩

end General

section Frame

def inFrame (c : Cpu M H) (r : Registers) : Cpu M H :=
  { c with regs := { r with bp := c.regs.bp, ss := c.regs.ss } }

/-- On the way into a frame: BP has been pushed and the frame pointers `ws` have been copied. -/
structure Copies (c d : Cpu M H) (ws : List UInt16) : Prop where
  pushed : Stacks c d (c.regs.bp :: ws)
  bp : d.regs.bp = wordsBelow c.regs.bp ws.length
  copied : ∀ k (hk : k < ws.length),
    (∀ j ≤ k, Apart (wordsBelow c.regs.bp (k + 1)) (wordsBelow c.regs.sp (j + 1))) →
      ws[k] = c.stackWord (wordsBelow c.regs.bp (k + 1))

variable [LawfulMemory M] {c d : Cpu M H}

theorem copies_push (c : Cpu M H) : Copies c (c.push c.regs.bp) [] := by
  constructor
  · exact (Stacks.refl c).push (by decide) _
  · exact (wordsBelow_zero _).symm
  · intro k hk
    exact absurd hk (Nat.not_lt_zero k)

theorem Copies.copyFramePointer {ws : List UInt16} (h : Copies c d ws)
    (hlt : ws.length < 0x7FFE) :
    Copies c d.copyFramePointer (ws ++ [d.stackWord (wordsBelow c.regs.bp (ws.length + 1))]) := by
  have hsource : d.regs.bp - 2 = wordsBelow c.regs.bp (ws.length + 1) := by
    rw [h.bp, wordsBelow_succ]
  have hmoved : Stacks c (d.setReg .bp (d.regs.bp - 2)) (c.regs.bp :: ws) :=
    ⟨h.pushed.ss, h.pushed.sp, h.pushed.words, h.pushed.others⟩
  constructor
  · rw [← hsource]
    exact hmoved.push (by rw [List.length_cons]; omega) _
  · rw [List.length_append, List.length_singleton, ← hsource]
    rfl
  · intro k hk hapart
    rw [List.length_append, List.length_singleton] at hk
    rcases Nat.lt_or_eq_of_le (Nat.le_of_lt_succ hk) with hold | rfl
    · rw [List.getElem_append_left hold, h.copied k hold hapart]
    · -- The new word is read before it is pushed: only what was pushed earlier can have changed it.
      rw [List.getElem_concat_length rfl]
      refine h.pushed.others _ fun j hj => hapart j ?_
      rw [List.length_cons] at hj
      omega

theorem copies_repeat (c : Cpu M H) {n : Nat} (hn : n < 0x7FFF) :
    ∃ ws, ws.length = n ∧
      Copies c (Nat.repeat Cpu.copyFramePointer n (c.push c.regs.bp)) ws := by
  induction n with
  | zero => exact ⟨[], rfl, copies_push c⟩
  | succ n ih =>
    obtain ⟨ws, hlength, h⟩ := ih (by omega)
    refine ⟨_, ?_, h.copyFramePointer (by omega)⟩
    rw [List.length_append, List.length_singleton, hlength]

/-- A frame of nesting level `l` below the stack of `c`: the old frame pointer, the frame pointers
of the enclosing frames, as far as they were not overwritten before they were read, and the new
one. -/
structure Opens (c d : Cpu M H) (l : Nat) : Prop where
  old : d.stackWord (c.regs.sp - 2) = c.regs.bp
  own : 1 ≤ l → d.stackWord (wordsBelow (c.regs.sp - 2) l) = c.regs.sp - 2
  enclosing : ∀ k, 1 ≤ k → k < l →
    (∀ j < k, Apart (wordsBelow c.regs.bp k) (wordsBelow (c.regs.sp - 2) j)) →
      d.stackWord (wordsBelow (c.regs.sp - 2) k) = c.stackWord (wordsBelow c.regs.bp k)

theorem Copies.opens {ws : List UInt16} (h : Copies c d ws) (hlt : ws.length < 0x7FFE) :
    Opens c (d.push (c.regs.sp - 2)) (ws.length + 1) ∧
      (d.push (c.regs.sp - 2)).regs.sp = wordsBelow (c.regs.sp - 2) (ws.length + 1) := by
  have hlength : (c.regs.bp :: ws).length = ws.length + 1 := List.length_cons
  have hpushed : (c.regs.bp :: ws ++ [c.regs.sp - 2]).length = ws.length + 2 := by
    rw [List.length_append, hlength, List.length_singleton]
  have hstacks := h.pushed.push (by omega) (c.regs.sp - 2)
  refine ⟨⟨?_, ?_, ?_⟩, ?_⟩
  · rw [← wordsBelow_one]
    exact hstacks.words 0 (by omega)
  · intro _
    rw [wordsBelow_sub_two]
    refine (hstacks.words (ws.length + 1) (by omega)).trans ?_
    exact List.getElem_concat_length hlength.symm _
  · intro k hk hkl hapart
    obtain ⟨k, rfl⟩ := Nat.exists_eq_add_of_le' hk
    have hcopied : ws[k] = c.stackWord (wordsBelow c.regs.bp (k + 1)) := by
      refine h.copied k (by omega) fun j hj => ?_
      rw [← wordsBelow_sub_two c.regs.sp]
      exact hapart j (by omega)
    rw [wordsBelow_sub_two, ← hcopied]
    refine (hstacks.words (k + 1) (by omega)).trans ?_
    exact List.getElem_append_left (by omega)
  · rw [wordsBelow_sub_two]
    exact hstacks.sp.trans (by rw [hpushed])

def opened (c : Cpu M H) : Nat → Cpu M H
  | 0 => c.push c.regs.bp
  | n + 1 => (Nat.repeat Cpu.copyFramePointer n (c.push c.regs.bp)).push (c.regs.sp - 2)

omit [LawfulMemory M] in
theorem enter_eq (c : Cpu M H) (size level : UInt16) : c.enter size level =
    let e := c.opened (level.toNat % 32)
    (e.setReg .bp (c.regs.sp - 2)).setReg .sp (e.regs.sp - size) := by
  unfold enter
  cases level.toNat % 32 <;> rfl

theorem opens_opened (c : Cpu M H) {l : Nat} (hl : l < 0x7FFF) :
    Opens c (c.opened l) l ∧ (c.opened l).regs.sp = wordsBelow (c.regs.sp - 2) l := by
  cases l with
  | zero =>
    refine ⟨⟨c.stackWord_push_self _, ?_, ?_⟩, (wordsBelow_zero _).symm⟩
    · intro hl
      omega
    · intro k hk hkl
      omega
  | succ n =>
    obtain ⟨ws, rfl, h⟩ := copies_repeat c (n := n) (by omega)
    exact h.opens (by omega)

theorem opens_enter (c : Cpu M H) (size level : UInt16) :
    Opens c (c.enter size level) (level.toNat % 32) ∧ (c.enter size level).regs.bp = c.regs.sp - 2 ∧
      (c.enter size level).regs.sp = wordsBelow (c.regs.sp - 2) (level.toNat % 32) - size := by
  obtain ⟨h, hsp⟩ := c.opens_opened (l := level.toNat % 32) (by omega)
  rw [enter_eq]
  refine ⟨⟨h.old, h.own, h.enclosing⟩, rfl, ?_⟩
  rw [← hsp]
  rfl

end Frame

end Cpu

namespace Instruction

variable {M H : Type} [Bus M] [LawfulMemory M] [HostService M H]

/-- POPA takes back what PUSHA has pushed, and LEAVE the frame that ENTER has opened, whatever the
other registers have become in between. A frame of nesting level `l` holds the old frame pointer,
those of the enclosing frames and its own. -/
theorem stack_frames_exact (i : Instruction) (c : Cpu M H) (size level : Operand) :
    (∃ d, ({ i with op := .pusha }.execute : Exec M H Unit) c = .ok () d ∧
      ∀ r, ∃ e, ({ i with op := .popa }.execute : Exec M H Unit) (d.withRegs r) = .ok () e ∧
        ∀ a, e.regs.get a = c.regs.get a) ∧
    ∃ d, ({ i with op := .enter, operands := [size, level] }.execute : Exec M H Unit) c =
        .ok () d ∧
      (∀ r, ∃ e, ({ i with op := .leave }.execute : Exec M H Unit) (d.inFrame r) = .ok () e ∧
        e.regs.bp = c.regs.bp ∧ e.regs.sp = c.regs.sp) ∧
      let frame := c.regs.sp - 2
      let l := (c.value level).toNat % 32
      d.regs.bp = frame ∧ d.regs.sp = wordsBelow frame l - c.value size ∧
        d.stackWord frame = c.regs.bp ∧ (1 ≤ l → d.stackWord (wordsBelow frame l) = frame) ∧
        ∀ k, 1 ≤ k → k < l →
          (∀ j < k, Apart (wordsBelow c.regs.bp k) (wordsBelow frame j)) →
            d.stackWord (wordsBelow frame k) = c.stackWord (wordsBelow c.regs.bp k) := by
  obtain ⟨hopens, hbp, hsp⟩ := c.opens_enter (c.value size) (c.value level)
  refine ⟨⟨c.pushAll, rfl, fun r => ?_⟩, ⟨c.enter (c.value size) (c.value level), rfl, fun r => ?_,
    hbp, hsp, hopens.old, hopens.own, hopens.enclosing⟩⟩
  · exact ⟨_, rfl, Cpu.get_popAll ((Cpu.stacks_pushAll c).withRegs r)⟩
  · refine ⟨_, rfl, ?_, ?_⟩
    · exact (congrArg _ hbp).trans hopens.old
    · exact (congrArg (· + 2) hbp).trans (UInt16.sub_add_cancel _ _)

/-- ENTER 0, 2 with one enclosing frame, whose own frame pointer lies below it. -/
theorem stack_frames_exact_nested :
    let c : Cpu Ram Empty :=
      ⟨{ Registers.zero with ss := 0x1000, sp := 0xFFFE, bp := 0x2000 }, .reset,
        Bus.setWord Ram.blank 0x1000 0x1FFE 0x4444, .empty, 0, false, .i80186, .silent⟩
    ∃ d, ((bare .enter [.imm 0 .word, .imm 2 .byte] 4).execute : Exec Ram Empty Unit) c =
        .ok () d ∧
      d.stackWord 0xFFFC = 0x2000 ∧ d.stackWord 0xFFFA = 0x4444 ∧ d.stackWord 0xFFF8 = 0xFFFC := by
  intro c
  obtain ⟨-, d, hd, -, -, -, hold, hown, henclosing⟩ :=
    stack_frames_exact (bare .enter [] 4) c (.imm 0 .word) (.imm 2 .byte)
  have hcopied := henclosing 1 (by decide) (by decide) fun j hj => by
    obtain rfl : j = 0 := by omega
    exact ⟨by decide, by decide, by decide⟩
  have hframe : c.regs.sp - 2 = 0xFFFC := by decide
  have hfirst : wordsBelow 0xFFFC 1 = 0xFFFA := by decide
  have hlast : wordsBelow 0xFFFC ((c.value (.imm 2 .byte)).toNat % 32) = 0xFFF8 := by decide
  have hbelow : wordsBelow c.regs.bp 1 = 0x1FFE := by decide
  have hsource : c.stackWord 0x1FFE = 0x4444 := Bus.getWord_setWord _ _ _ _
  rw [hframe] at hold hcopied
  rw [hfirst, hbelow, hsource] at hcopied
  have hnew := hown (by decide)
  rw [hframe, hlast] at hnew
  exact ⟨d, hd, hold, hcopied, hnew⟩

end Instruction
end RealMode
