import RealMode.Proofs.InstructionReach
import RealMode.Proofs.OverwrittenMemory
import RealMode.Proofs.TouchedFlags

/-! # Footprints

A footprint is fixed before the action begins, so that the parts of an action stay within the
same one.
-/
namespace RealMode

structure Footprint where
  addresses : List Nat
  flags : List Flag
  moves : Bool

namespace Cpu

variable {M H : Type}

section Addresses

variable (c : Cpu M H)

def below (n : Nat) : List Nat :=
  (List.range (2 * n)).map fun i => physical c.regs.ss (c.regs.sp - UInt16.ofNat (i + 1))

def elements (w : Width) (n : Nat) : List Nat :=
  (List.range n).flatMap fun i => cell c.regs.es (c.direction.offset c.regs.di w.bytes i) w

theorem below_three : c.below 3 = c.frame := rfl

theorem cell_subset_below {k n : Nat} (h : k < n) :
    cell c.regs.ss (c.regs.sp - UInt16.ofNat (2 * k) - 2) .word ⊆ c.below n := by
  have hmem {i : Nat} (hi : i < 2 * n) {o : UInt16} (ho : o = c.regs.sp - UInt16.ofNat (i + 1)) :
      physical c.regs.ss o ∈ c.below n := by
    rw [ho]
    exact List.mem_map_of_mem (List.mem_range.mpr hi)
  have hlow : c.regs.sp - UInt16.ofNat (2 * k) - 2 =
      c.regs.sp - UInt16.ofNat (2 * k + 1 + 1) := by
    rw [UInt16.ofNat_add, UInt16.ofNat_add]
    grind
  have hhigh : c.regs.sp - UInt16.ofNat (2 * k) - 2 + 1 =
      c.regs.sp - UInt16.ofNat (2 * k + 1) := by
    rw [UInt16.ofNat_add]
    grind
  intro a ha
  rcases List.mem_cons.mp ha with rfl | ha
  · exact hmem (by omega) hlow
  · rw [List.mem_singleton.mp ha]
    exact hmem (by omega) hhigh

theorem cell_subset_elements (w : Width) {i n : Nat} (h : i < n) :
    cell c.regs.es (c.direction.offset c.regs.di w.bytes i) w ⊆ c.elements w n :=
  fun _ ha => List.mem_flatMap.mpr ⟨i, List.mem_range.mpr h, ha⟩

end Addresses

variable [Bus M]

/-- A state that an action within a footprint can make of another one. -/
structure Within (F : Footprint) (d c : Cpu M H) : Prop where
  memory : Bus.Overwrites F.addresses c.memory d.memory
  flags : d.flags.Touched F.flags c.flags
  place : F.moves = false → d.regs.cs = c.regs.cs ∧ d.regs.ip = c.regs.ip
  steps : d.steps = c.steps

namespace Within

variable {F : Footprint}

theorem refl (c : Cpu M H) : c.Within F c := ⟨.refl, .refl _, fun _ => ⟨rfl, rfl⟩, rfl⟩

theorem trans {c d e : Cpu M H} (h : e.Within F d) (k : d.Within F c) : e.Within F c := by
  constructor
  · exact k.memory.trans h.memory
  · exact h.flags.trans k.flags
  · intro hstill
    obtain ⟨hcs, hip⟩ := h.place hstill
    obtain ⟨kcs, kip⟩ := k.place hstill
    exact ⟨hcs.trans kcs, hip.trans kip⟩
  · exact h.steps.trans k.steps

variable {c d : Cpu M H} (h : d.Within F c)
include h

section Registers

theorem setRegs {r : Registers} (hcs : r.cs = d.regs.cs) (hip : r.ip = d.regs.ip) :
    (d.setRegs r).Within F c :=
  ⟨h.memory, h.flags, fun hstill => ⟨hcs.trans (h.place hstill).1, hip.trans (h.place hstill).2⟩,
    h.steps⟩

theorem setReg (r : Reg16) (v : UInt16) : (d.setReg r v).Within F c := by
  apply h.setRegs
  · exact d.regs.getSeg_set r .cs v
  · exact d.regs.ip_set r v

theorem setReg8 (r : Reg8) (v : UInt8) : (d.setReg8 r v).Within F c := h.setReg r.whole _

theorem advance (r : Reg16) (w : Width) (n : Nat) : (d.advance r w n).Within F c := h.setReg r _

theorem setAccumulator (w : Width) (v : UInt16) : (d.setAccumulator w v).Within F c := by
  cases w
  · exact h.setReg8 .al _
  · exact h.setReg .ax _

theorem setSeg {s : SegReg} (hs : s = .cs → F.moves = true) (v : UInt16) :
    (d.setSeg s v).Within F c := by
  by_cases hcs : s = .cs
  · have hmoves := hs hcs
    exact ⟨h.memory, h.flags, fun hstill => absurd (hmoves.symm.trans hstill) (by decide), h.steps⟩
  · apply h.setRegs
    · exact (d.regs.getSeg_setSeg s .cs v).trans (if_neg hcs)
    · exact d.regs.ip_setSeg s v

theorem note (a : Category) (l : Level) (t : Unit → String) : (d.note a l t).Within F c := by
  cases d
  exact ⟨h.memory, h.flags, h.place, h.steps⟩

theorem drop : d.drop.Within F c := h.setReg .sp _

theorem withHalted (v : Bool) : ({ d with halted := v } : Cpu M H).Within F c :=
  ⟨h.memory, h.flags, h.place, h.steps⟩

omit h in
theorem move {F : Footprint} (hmoves : F.moves = true) {e : Cpu M H} (h : d.Within F c)
    (hmemory : e.memory = d.memory) (hflags : e.flags = d.flags) (hsteps : e.steps = d.steps) :
    e.Within F c := by
  constructor
  · rw [hmemory]
    exact h.memory
  · rw [hflags]
    exact h.flags
  · intro hstill
    exact absurd (hmoves.symm.trans hstill) (by decide)
  · rw [hsteps, h.steps]

end Registers

section Flags

theorem setFlags {f : Flags} (hf : f.Touched F.flags d.flags) : (d.setFlags f).Within F c :=
  ⟨h.memory, hf.trans h.flags, h.place, h.steps⟩

theorem setFlag {a : Flag} (ha : a ∈ F.flags) (v : Bool) : (d.setFlag a v).Within F c :=
  h.setFlags ((Flags.Touched.refl _).set ha v)

theorem setCarryOverflow (hF : [.carry, .overflow] ⊆ F.flags) (v : Bool) :
    (d.setCarryOverflow v).Within F c :=
  h.setFlags (((Flags.Touched.refl _).set (hF (by decide)) v).set (hF (by decide)) v)

end Flags

section Memory

theorem withMemory {k : M} (hk : Bus.Overwrites F.addresses d.memory k) :
    ({ d with memory := k } : Cpu M H).Within F c :=
  ⟨h.memory.trans hk, h.flags, h.place, h.steps⟩

theorem writeElement {segment offset : UInt16} {w : Width}
    (ha : cell segment offset w ⊆ F.addresses) (v : UInt16) :
    (d.writeElement segment offset w v).Within F c := by
  cases w
  · exact h.withMemory (Bus.Overwrites.refl.setByte (ha (List.mem_cons_self ..)) _)
  · exact h.withMemory (Bus.Overwrites.refl.setWord ha v)

theorem portIn (port : UInt16) (w : Width) : (d.portIn port w).2.Within F c := by
  cases w
  · exact ⟨h.memory.portIn port, h.flags, h.place, h.steps⟩
  · exact ⟨h.memory.portInWord port, h.flags, h.place, h.steps⟩

theorem portOut (port : UInt16) (w : Width) (v : UInt16) : (d.portOut port w v).Within F c := by
  cases w
  · exact ⟨h.memory.portOut port _, h.flags, h.place, h.steps⟩
  · exact ⟨h.memory.portOutWord port v, h.flags, h.place, h.steps⟩

theorem lookUp (s : SegReg) : (d.lookUp s).Within F c := h.setReg8 .al _

end Memory

section Repetition

theorem nat_repeat {f : Cpu M H → Cpu M H} (hf : ∀ e, e.Within F c → (f e).Within F c)
    (n : Nat) : (Nat.repeat f n d).Within F c := by
  induction n with
  | zero => exact h
  | succ n ih => exact hf _ ih

theorem foldl {f : Cpu M H → Reg16 → Cpu M H} (hf : ∀ e r, e.Within F c → (f e r).Within F c)
    (rs : List Reg16) : (rs.foldl f d).Within F c := by
  induction rs generalizing d with
  | nil => exact h
  | cons r rs ih => exact ih (hf d r h)

theorem compareMass {compare : Cpu M H → Cpu M H}
    (hf : ∀ e, e.Within F c → (compare e).Within F c) (how : Repeat) (count done : Nat) :
    (Cpu.compareMass compare how count done d).2.Within F c := by
  induction count generalizing done d with
  | zero => exact h
  | succ n ih =>
    unfold Cpu.compareMass
    dsimp only
    split
    next => exact hf d h
    next => exact ih (hf d h) (done + 1)

end Repetition

section Arithmetic

theorem setResult (hF : Flag.result ⊆ F.flags) (w : Width) (r : Nat) :
    (d.setFlags (d.flags.ofResult w r)).Within F c :=
  h.setFlags ((Flags.Touched.refl _).ofResult hF w r)

theorem setProduct (hF : Flag.logical ⊆ F.flags) (w : Width) (r : Nat) (v : Bool) :
    ((d.setFlags (d.flags.ofResult w r)).setCarryOverflow v).Within F c := by
  have hresult := h.setResult (fun _ ha => hF (Flag.result_subset_logical ha)) w r
  exact hresult.setCarryOverflow (fun _ ha => hF (Flag.carry_subset_logical ha)) v

theorem multiply (hF : Flag.logical ⊆ F.flags) (w : Width) (v : UInt16) :
    (d.multiply w v).Within F c := by
  cases w
  · exact (h.setReg .ax _).setProduct hF _ _ _
  · exact ((h.setReg .ax _).setReg .dx _).setProduct hF _ _ _

theorem multiplySigned (hF : Flag.logical ⊆ F.flags) (w : Width) (v : UInt16) :
    (d.multiplySigned w v).Within F c := by
  cases w
  · exact (h.setReg .ax _).setProduct hF _ _ _
  · exact ((h.setReg .ax _).setReg .dx _).setProduct hF _ _ _

theorem divide? {e : Cpu M H} {w : Width} {v : UInt16} (hd : d.divide? w v = some e) :
    e.Within F c := by
  cases w <;>
    simp only [Cpu.divide?, Option.ite_none_left_eq_some, Option.some.injEq] at hd <;>
    obtain ⟨-, -, rfl⟩ := hd
  · exact (h.setReg8 .al _).setReg8 .ah _
  · exact (h.setReg .ax _).setReg .dx _

theorem divideSigned? {e : Cpu M H} {w : Width} {v : UInt16}
    (hd : d.divideSigned? w v = some e) : e.Within F c := by
  cases w <;>
    simp only [Cpu.divideSigned?, Option.ite_none_left_eq_some, Option.some.injEq] at hd <;>
    obtain ⟨-, -, rfl⟩ := hd
  · exact (h.setReg8 .al _).setReg8 .ah _
  · exact (h.setReg .ax _).setReg .dx _

theorem decimalAdjust (hF : Flag.low ⊆ F.flags) (step : Int → Int) :
    (d.decimalAdjust step).Within F c := by
  have hresult : Flag.result ⊆ F.flags := fun _ ha => hF (Flag.result_subset_low ha)
  apply (h.setReg8 .al _).setFlags
  apply Flags.Touched.ofResult _ hresult
  exact ((Flags.Touched.refl _).set (hF (by decide)) _).set (hF (by decide)) _

theorem asciiAdjust (hF : [.carry, .auxiliary] ⊆ F.flags) (ax ah : Int) :
    (d.asciiAdjust ax ah).Within F c := by
  unfold Cpu.asciiAdjust
  apply setFlags _ (((Flags.Touched.refl _).set (hF (by decide)) _).set (hF (by decide)) _)
  by_cases hadjust : d.lowAdjust
  · simp only [hadjust, ↓reduceIte]
    exact ((h.setReg .ax _).setReg .ax _).setReg .ax _
  · simp only [hadjust]
    exact h.setReg .ax _

theorem splitDigits (hF : Flag.result ⊆ F.flags) (base : UInt8) :
    (d.splitDigits base).Within F c :=
  ((h.setReg8 .ah _).setReg8 .al _).setResult hF _ _

theorem joinDigits (hF : Flag.result ⊆ F.flags) (base : UInt8) :
    (d.joinDigits base).Within F c := (h.setReg .ax _).setResult hF _ _

end Arithmetic

section Returns

theorem popReg (r : Reg16) : (d.popReg r).Within F c := h.drop.setReg r _

theorem popAll : d.popAll.Within F c :=
  (h.foldl (fun _ r he => he.popReg r) _).drop.foldl (fun _ r he => he.popReg r) _

theorem leave : d.leave.Within F c := (h.setReg .sp _).popReg .bp

theorem release (operands : List Operand) : (d.release operands).Within F c := by
  cases operands with
  | nil => exact h
  | cons o _ => exact h.setReg .sp _

variable (hmoves : F.moves = true)
include hmoves

theorem setIp (v : UInt16) : (d.setIp v).Within F c := move hmoves h rfl rfl rfl

theorem jump (p : FarPointer) : (d.jump p).Within F c := move hmoves h rfl rfl rfl

theorem ret (operands : List Operand) : (d.ret operands).Within F c :=
  (h.drop.setIp hmoves _).release operands

theorem retFar (operands : List Operand) : (d.retFar operands).Within F c :=
  ((h.drop.setIp hmoves _).drop.setSeg (fun _ => hmoves) _).release operands

theorem iret (hall : ∀ a, a ∈ F.flags) : d.iret.Within F c :=
  ((h.drop.setIp hmoves _).drop.setSeg (s := .cs) (fun _ => hmoves) _).drop.setFlags
    (.setWord _ _ hall)

end Returns

end Within

/-- `k` words have been pushed, and nothing else but registers has changed. -/
structure Pushed (F : Footprint) (k : Nat) (d c : Cpu M H) : Prop where
  within : d.Within F c
  ss : d.regs.ss = c.regs.ss
  sp : d.regs.sp = c.regs.sp - UInt16.ofNat (2 * k)

namespace Pushed

variable {F : Footprint} {n k : Nat} {c d : Cpu M H}

theorem zero (c : Cpu M H) : c.Pushed F 0 c := ⟨.refl c, rfl, by simp⟩

theorem setReg (h : d.Pushed F k c) {r : Reg16} (hr : r ≠ .sp) (v : UInt16) :
    (d.setReg r v).Pushed F k c := by
  constructor
  · exact h.within.setReg r v
  · exact (d.regs.getSeg_set r .ss v).trans h.ss
  · exact ((d.regs.get_set r .sp v).trans (if_neg hr)).trans h.sp

variable (hF : c.below n ⊆ F.addresses)
include hF

theorem push (h : d.Pushed F k c) (hk : k < n) (v : UInt16) : (d.push v).Pushed F (k + 1) c := by
  have hcell : cell d.regs.ss (d.regs.sp - 2) .word ⊆ F.addresses := by
    rw [h.ss, h.sp]
    exact List.Subset.trans (c.cell_subset_below hk) hF
  have hsp : d.regs.sp - 2 = c.regs.sp - UInt16.ofNat (2 * (k + 1)) := by
    rw [h.sp, Nat.mul_succ, UInt16.ofNat_add]
    grind
  constructor
  · exact (h.within.withMemory (Bus.Overwrites.refl.setWord hcell v)).setReg .sp _
  · exact h.ss
  · exact hsp

theorem foldl (f : Cpu M H → Reg16 → UInt16) (rs : List Reg16) (h : d.Pushed F k c)
    (hk : k + rs.length ≤ n) :
    (rs.foldl (fun e r => e.push (f e r)) d).Pushed F (k + rs.length) c := by
  induction rs generalizing d k with
  | nil => exact h
  | cons r rs ih =>
    rw [List.length_cons] at hk ⊢
    have hrest := ih (h.push hF (by omega) (f d r)) (by omega)
    rwa [Nat.add_assoc, Nat.add_comm 1] at hrest

theorem copyFramePointers (j : Nat) (h : d.Pushed F k c) (hk : k + j ≤ n) :
    (Nat.repeat copyFramePointer j d).Pushed F (k + j) c := by
  induction j with
  | zero => exact h
  | succ j ih =>
    have hbp := (ih (by omega)).setReg (r := .bp) (by decide)
      ((Nat.repeat copyFramePointer j d).regs.bp - 2)
    exact hbp.push hF (by omega) _

end Pushed

theorem Within.push {F : Footprint} {c : Cpu M H} (hF : c.below 1 ⊆ F.addresses) (v : UInt16) :
    (c.push v).Within F c := ((Pushed.zero c).push hF (Nat.lt_succ_self 0) v).within

theorem Within.pushAll {F : Footprint} {c : Cpu M H} (hF : c.below 8 ⊆ F.addresses) :
    c.pushAll.Within F c := by
  have hfour := (Pushed.zero c).foldl hF (fun e r => e.regs.get r) [.ax, .cx, .dx, .bx] (by decide)
  have hfive := hfour.push hF (by decide) c.regs.sp
  exact (hfive.foldl hF (fun e r => e.regs.get r) [.bp, .si, .di] (by decide)).within

theorem Within.enter {F : Footprint} {c : Cpu M H} (size level : UInt16)
    (hF : c.below (level.toNat % 32 + 1) ⊆ F.addresses) : (c.enter size level).Within F c := by
  have hone := (Pushed.zero c).push hF (Nat.succ_pos _) c.regs.bp
  unfold Cpu.enter
  dsimp only
  by_cases hlevel : level.toNat % 32 = 0
  · rw [if_pos hlevel]
    exact (hone.within.setReg .bp _).setReg .sp _
  · rw [if_neg hlevel]
    have hframes := hone.copyFramePointers hF (level.toNat % 32 - 1) (by omega)
    have hall := hframes.push hF (by omega) (c.push c.regs.bp).regs.sp
    exact (hall.within.setReg .bp _).setReg .sp _

end Cpu
end RealMode
