import Mathlib.Data.Nat.Factorial.Basic
import RealMode.Proofs.EncodedSteps
import RealMode.Proofs.KeptRange

/-! # A recursive program -/
namespace RealMode

open scoped Nat

namespace Factorial

/-- Loads AX and calls the routine behind the HLT, which multiplies AX by the factorial of what is
below it. -/
def program (n : UInt16) : ByteArray := ⟨#[
  0xB8, lowByte n, highByte n, -- 0100 mov ax, n
  0xE8, 0x01, 0x00,            -- 0103 call 0107
  0xF4,                        -- 0106 hlt
  0x3D, 0x01, 0x00,            -- 0107 cmp ax, 1
  0x76, 0x08,                  -- 010A jbe 0114
  0x50,                        -- 010C push ax
  0x48,                        -- 010D dec ax
  0xE8, 0xF6, 0xFF,            -- 010E call 0107
  0x5B,                        -- 0111 pop bx
  0xF7, 0xE3,                  -- 0112 mul bx
  0xC3]⟩                       -- 0114 ret

def size : Nat := 21

def segment : UInt16 := 0x1000

def place (i : Nat) : UInt16 := 0x0100 + UInt16.ofNat i

theorem place_add (i j : Nat) : place i + UInt16.ofNat j = place (i + j) := by
  rw [place, place, UInt16.ofNat_add, UInt16.add_assoc]

section Memory

variable {M : Type} [Bus M]

def Placed (n : UInt16) (m : M) : Prop := Bus.getBytes m segment 0x0100 size = program n

def SameFrom (o : UInt16) (m k : M) : Prop := Bus.Keeps segment o 0xFFFF m k

variable {n : UInt16} {m k : M}

theorem Placed.getByte (h : Placed n m) {i : Nat} {b : UInt8} (hb : (program n)[i]? = some b) :
    Bus.getByte m segment (place i) = b := Bus.getByte_of_getBytes h hb

variable [LawfulMemory M]

theorem sameFrom_setWord {s : UInt16} (hs : 2 ≤ s) (v : UInt16) :
    SameFrom s m (Bus.setWord m segment (s - 2) v) := by
  have hbelow : (s - 2).toNat + 2 = s.toNat := by
    rw [UInt16.toNat_sub_of_le _ _ hs]
    exact Nat.sub_add_cancel hs
  exact Bus.Keeps.refl.setWord (.inl (Nat.le_of_eq hbelow)) v

theorem Placed.setWord (h : Placed n m) {s : UInt16} (hs : place size + 2 ≤ s) (v : UInt16) :
    Placed n (Bus.setWord m segment (s - 2) v) := by
  have hsize : place size = 0x0115 := by decide
  have hbehind : Misses (s - 2) 2 0x0100 0x0114 := by
    have hlt := s.toNat_lt
    refine .inr ⟨by grind, ?_⟩
    rw [UInt16.toNat_sub_of_le _ _ (by grind)]
    show s.toNat - 2 + 2 ≤ 0x10000
    omega
  exact ((Bus.Keeps.refl.setWord hbehind v).getBytes (by decide) (by decide)).trans h

end Memory

variable {M H : Type} [Bus M]

/-- The processor can execute the program: it is at its place, and the stack is in its segment. -/
structure Ready (n : UInt16) (c : Cpu M H) : Prop where
  running : c.halted = false
  cs : c.regs.cs = segment
  ss : c.regs.ss = segment
  placed : Placed n c.memory

structure Runs (n : UInt16) (k : Nat) (c : Cpu M H) : Prop extends Ready n c where
  ip : c.regs.ip = place k

namespace Runs

variable {n : UInt16} {k : Nat} {c d : Cpu M H}

theorem facing (h : Runs n k c) (i : Nat) {b : UInt8} (hb : (program n)[k + i]? = some b) :
    c.facing i = b := by
  rw [Cpu.facing, h.cs, h.ip, place_add]
  exact h.placed.getByte hb

theorem facingWord (h : Runs n k c) (i : Nat) {a b : UInt8} (ha : (program n)[k + i]? = some a)
    (hb : (program n)[k + (i + 1)]? = some b) : c.facingWord i = wordOf a b := by
  rw [Cpu.facingWord, h.facing i ha, h.facing (i + 1) hb]

theorem ip_behind (h : Runs n k c) (j : Nat) : (c.behind j).ip = place (k + j) := by
  rw [Cpu.behind, h.ip, place_add]

theorem top_eq (h : Runs n k c) : c.top = Bus.getWord c.memory segment c.regs.sp := by
  rw [Cpu.top, h.ss]

variable [HostService M H] {r : Registers} {m : M}

theorem next (h : Runs n k c) (hd : c.StepsTo d r m) (hm : Placed n m) (hcs : r.cs = c.regs.cs)
    (hss : r.ss = c.regs.ss) {k' : Nat} (hip : r.ip = place k') : Runs n k' d := by
  refine ⟨⟨hd.running, ?_, ?_, ?_⟩, ?_⟩
  · rw [hd.regs, hcs, h.cs]
  · rw [hd.regs, hss, h.ss]
  · rw [hd.memory]
    exact hm
  · rw [hd.regs, hip]

end Runs

variable [HostService M H]

structure Keeps (c d : Cpu M H) : Prop where
  sp : d.regs.sp = c.regs.sp
  ax : d.regs.ax = c.regs.ax
  memory : d.memory = c.memory

/-- A call of the routine, in state `c`, has come back after `a` steps, with `v` in AX. -/
structure Returns (n : UInt16) (a : Nat) (v : UInt16) (c d : Cpu M H) : Prop where
  arrives : c.Arrives a d
  ready : Ready n d
  ip : d.regs.ip = c.top
  sp : d.regs.sp = c.regs.sp + 2
  ax : d.regs.ax = v
  above : SameFrom c.regs.sp c.memory d.memory

/-- The routine has been called with the argument, and is to come back to the HLT. -/
structure Enters (n : UInt16) (a : Nat) (c d : Cpu M H) : Prop where
  arrives : c.Arrives a d
  runs : Runs n 7 d
  sp : d.regs.sp = 0xFFFC
  ax : d.regs.ax = n
  top : d.top = place 6

structure Descends (n : UInt16) (a : Nat) (c d : Cpu M H) : Prop where
  arrives : c.Arrives a d
  runs : Runs n 7 d
  sp : d.regs.sp = c.regs.sp - 4
  ax : d.regs.ax = c.regs.ax - 1
  top : d.top = place 17
  saved : Bus.getWord d.memory segment (c.regs.sp - 2) = c.regs.ax
  above : SameFrom c.regs.sp c.memory d.memory

structure Ascends (n : UInt16) (a : Nat) (c d : Cpu M H) : Prop where
  arrives : c.Arrives a d
  ready : Ready n d
  ip : d.regs.ip = Bus.getWord c.memory segment (c.regs.sp + 2)
  sp : d.regs.sp = c.regs.sp + 4
  ax : d.regs.ax = c.regs.ax * c.top
  above : SameFrom (c.regs.sp + 2) c.memory d.memory

namespace Runs

variable {n : UInt16} {k : Nat} {c d : Cpu M H}

theorem compare (h : Runs n 7 c) : ∃ d, c.Arrives 2 d ∧
    Runs n (if c.regs.ax.toNat ≤ 1 then 20 else 12) d ∧ Keeps c d := by
  obtain ⟨d, hd, hflags⟩ := Cpu.step_cmp_ax h.running (h.facing 0 rfl)
  have rd : Runs n 10 d := h.next hd h.placed rfl rfl (h.ip_behind 3)
  have hbe : d.flags.holds .be ↔ c.regs.ax.toNat ≤ 1 := by
    have hax := c.regs.ax.toNat_lt
    have hone : (wordOf 0x01 0x00).toNat = 1 := by decide
    rw [hflags, Flags.holds_sub, h.facingWord (a := 0x01) (b := 0x00) 1 rfl rfl]
    simp only [Condition.Relates, Width.low, Width.modulus, hone]
    omega
  obtain ⟨e, he⟩ := Cpu.step_jbe rd.running (rd.facing 0 rfl)
  have harrives : c.Arrives 2 e := (hd.arrives h.running).trans (he.arrives rd.running)
  by_cases hle : c.regs.ax.toNat ≤ 1
  · rw [if_pos (hbe.mpr hle)] at he
    have hip : (d.behind 2).ip + signExtend (d.facing 1) = place 20 := by
      rw [rd.ip_behind, rd.facing (b := 0x08) 1 rfl]
      decide
    refine ⟨e, harrives, ?_, ?_, ?_, he.memory.trans hd.memory⟩
    · rw [if_pos hle]
      exact rd.next he rd.placed rfl rfl hip
    · simp only [he.regs, hd.regs, Cpu.behind]
    · simp only [he.regs, hd.regs, Cpu.behind]
  · rw [if_neg (hbe.not.mpr hle)] at he
    refine ⟨e, harrives, ?_, ?_, ?_, he.memory.trans hd.memory⟩
    · rw [if_neg hle]
      exact rd.next he rd.placed rfl rfl (rd.ip_behind 2)
    · simp only [he.regs, hd.regs, Cpu.behind]
    · simp only [he.regs, hd.regs, Cpu.behind]

theorem leave (h : Runs n 20 c) : ∃ d, Returns n 1 c.regs.ax c d := by
  obtain ⟨d, hd⟩ := Cpu.step_ret h.running (h.facing 0 rfl)
  refine ⟨d, hd.arrives h.running, ⟨hd.running, ?_, ?_, ?_⟩, ?_, ?_, ?_, ?_⟩
  · rw [hd.regs, ← h.cs]
  · rw [hd.regs, ← h.ss]
  · rw [hd.memory]
    exact h.placed
  · rw [hd.regs]
  · rw [hd.regs]
  · rw [hd.regs]
  · rw [hd.memory]
    exact Bus.Keeps.refl

theorem bottom (h : Runs n 7 c) (hax : c.regs.ax.toNat ≤ 1) :
    ∃ d, Returns n 3 c.regs.ax c d := by
  obtain ⟨d, hd, rd, hkeeps⟩ := h.compare
  rw [if_pos hax] at rd
  obtain ⟨e, he⟩ := rd.leave
  have htop : d.top = c.top := by
    rw [rd.top_eq, h.top_eq, hkeeps.memory, hkeeps.sp]
  refine ⟨e, hd.trans he.arrives, he.ready, he.ip.trans htop, ?_, he.ax.trans hkeeps.ax, ?_⟩
  · rw [he.sp, hkeeps.sp]
  · rw [← hkeeps.sp, ← hkeeps.memory]
    exact he.above

/-- Five steps push the argument and the return address. -/
theorem descend [LawfulMemory M] (h : Runs n 7 c) (hax : 1 < c.regs.ax.toNat)
    (hroom : place size + 4 ≤ c.regs.sp) : ∃ d, Descends n 5 c d := by
  have hsize : place size = 0x0115 := by decide
  obtain ⟨d, hd, rd, hkeeps⟩ := h.compare
  rw [if_neg (Nat.not_le.mpr hax)] at rd
  obtain ⟨e, he⟩ := Cpu.step_push_ax rd.running (rd.facing 0 rfl)
  rw [rd.ss, hkeeps.memory, hkeeps.sp, hkeeps.ax] at he
  have re : Runs n 13 e :=
    rd.next he (h.placed.setWord (by grind) _) rfl rfl (rd.ip_behind 1)
  obtain ⟨f, hf⟩ := Cpu.step_dec_ax re.running (re.facing 0 rfl)
  have rf : Runs n 14 f := re.next hf re.placed rfl rfl (re.ip_behind 1)
  have hsp : f.regs.sp = c.regs.sp - 2 := by simp only [hf.regs, he.regs, Cpu.behind]
  obtain ⟨g, hg⟩ := Cpu.step_call rf.running (rf.facing 0 rfl)
  rw [rf.ss, hsp, rf.ip_behind, rf.facingWord (a := 0xF6) (b := 0xFF) 1 rfl rfl] at hg
  have rg : Runs n 7 g := by
    refine rf.next hg (rf.placed.setWord (by grind) _) rfl rfl ?_
    show place (14 + 3) + wordOf 0xF6 0xFF = place 7
    decide
  have hmemory := hf.memory.trans he.memory
  have hargument : SameFrom c.regs.sp c.memory f.memory := by
    rw [hmemory]
    exact sameFrom_setWord (by grind) _
  have haddress : SameFrom (c.regs.sp - 2) f.memory g.memory := by
    rw [hg.memory]
    exact sameFrom_setWord (by grind) _
  refine ⟨g, ?_, rg, ?_, ?_, ?_, ?_, ?_⟩
  · exact ((hd.trans (he.arrives rd.running)).trans (hf.arrives re.running)).trans
      (hg.arrives rf.running)
  · simp only [hg.regs]
    grind
  · simp only [hg.regs, hf.regs, he.regs, Cpu.behind, hkeeps.ax]
  · rw [rg.top_eq, hg.memory, hg.regs, Bus.getWord_setWord]
  · rw [haddress.getWord (UInt16.le_refl _) (by grind), hmemory, Bus.getWord_setWord]
  · exact hargument.trans (haddress.narrow (by grind) (UInt16.le_refl _))

/-- Three steps take back the argument, and the return address of the caller. -/
theorem ascend (h : Runs n 17 c) : ∃ d, Ascends n 3 c d := by
  obtain ⟨d, hd⟩ := Cpu.step_pop_bx h.running (h.facing 0 rfl)
  have rd : Runs n 18 d := h.next hd h.placed rfl rfl (h.ip_behind 1)
  obtain ⟨e, he⟩ := Cpu.step_mul_bx rd.running (rd.facing 0 rfl) (rd.facing 1 rfl)
  have re : Runs n 20 e := rd.next he rd.placed rfl rfl (rd.ip_behind 2)
  obtain ⟨f, hf⟩ := re.leave
  have hmemory := he.memory.trans hd.memory
  have hsp : e.regs.sp = c.regs.sp + 2 := by simp only [he.regs, hd.regs, Cpu.behind]
  refine ⟨f, ?_, hf.ready, ?_, ?_, ?_, ?_⟩
  · exact ((hd.arrives h.running).trans (he.arrives rd.running)).trans hf.arrives
  · rw [hf.ip, re.top_eq, hmemory, hsp]
  · rw [hf.sp, hsp]
    grind
  · simp only [hf.ax, he.regs, hd.regs, Cpu.behind]
  · rw [← hsp, ← hmemory]
    exact hf.above

/-- Every level of the recursion takes four bytes of the stack and eight steps. -/
theorem returns [LawfulMemory M] {j : Nat} (h : Runs n 7 c) (hax : c.regs.ax.toNat = j + 1)
    (hroom : (place size).toNat + 4 * j ≤ c.regs.sp.toNat) (hlast : c.regs.sp < 0xFFFF) :
    ∃ d, Returns n (8 * j + 3) (UInt16.ofNat (j + 1)!) c d := by
  induction j generalizing c with
  | zero =>
    have hone : c.regs.ax = UInt16.ofNat 1! := UInt16.toNat_inj.mp hax
    rw [← hone]
    exact h.bottom (Nat.le_of_eq hax)
  | succ j ih =>
    have hsize : place size = 0x0115 := by decide
    have hdeep : 0x0119 ≤ c.regs.sp := by
      rw [hsize] at hroom
      apply UInt16.le_iff_toNat_le.mpr
      simp only [UInt16.reduceToNat] at *
      omega
    have hsp : (c.regs.sp - 4).toNat = c.regs.sp.toNat - 4 :=
      UInt16.toNat_sub_of_le _ _ (by grind)
    have hargument : (c.regs.ax - 1).toNat = j + 1 := by
      rw [UInt16.toNat_sub_of_le _ _ (UInt16.le_iff_toNat_le.mpr (by simp [hax])), hax]
      rfl
    obtain ⟨d, hd⟩ := h.descend (by omega) (by grind)
    obtain ⟨e, he⟩ := ih hd.runs (hd.ax ▸ hargument) (by rw [hd.sp, hsp]; omega)
      (by rw [hd.sp]; grind)
    have re : Runs n 17 e := ⟨he.ready, he.ip.trans hd.top⟩
    have hesp : e.regs.sp = c.regs.sp - 2 := by
      rw [he.sp, hd.sp]
      grind
    have hbelow : SameFrom (c.regs.sp - 4) d.memory e.memory := hd.sp ▸ he.above
    have hsaved : e.top = c.regs.ax := by
      rw [re.top_eq, hesp, hbelow.getWord (by grind) (by grind), hd.saved]
    have habove : SameFrom c.regs.sp c.memory e.memory :=
      hd.above.trans (hbelow.narrow (by grind) (UInt16.le_refl _))
    have hcaller : e.regs.sp + 2 = c.regs.sp := by
      rw [hesp, UInt16.sub_add_cancel]
    obtain ⟨f, hf⟩ := re.ascend
    refine ⟨f, ?_, hf.ready, ?_, ?_, ?_, ?_⟩
    · have harrives := (hd.arrives.trans he.arrives).trans hf.arrives
      rwa [show 5 + (8 * j + 3) + 3 = 8 * (j + 1) + 3 by omega] at harrives
    · rw [hf.ip, hcaller, habove.getWord (UInt16.le_refl _) hlast, h.top_eq]
    · rw [hf.sp, hesp]
      grind
    · have hlevel : c.regs.ax = UInt16.ofNat (j + 1 + 1) := by rw [← hax, UInt16.ofNat_toNat]
      rw [hf.ax, he.ax, hsaved, hlevel, ← UInt16.ofNat_mul, Nat.mul_comm, ← Nat.factorial_succ]
    · exact habove.trans (hcaller ▸ hf.above)

theorem enter [LawfulMemory M] (h : Runs n 0 c) (hsp : c.regs.sp = 0xFFFE) :
    ∃ d, Enters n 2 c d := by
  have hroom : place size + 2 ≤ 0xFFFE := by decide
  obtain ⟨d, hd⟩ := Cpu.step_mov_ax h.running (h.facing 0 rfl)
  rw [h.facingWord (a := lowByte n) (b := highByte n) 1 rfl rfl, wordOf_lowByte_highByte] at hd
  have rd : Runs n 3 d := h.next hd h.placed rfl rfl (h.ip_behind 3)
  have hdsp : d.regs.sp = 0xFFFE := by
    rw [hd.regs, ← hsp]
    rfl
  have hdax : d.regs.ax = n := by rw [hd.regs]
  obtain ⟨e, he⟩ := Cpu.step_call rd.running (rd.facing 0 rfl)
  rw [rd.ss, hdsp, rd.ip_behind, rd.facingWord (a := 0x01) (b := 0x00) 1 rfl rfl] at he
  have hroutine : place (3 + 3) + wordOf 0x01 0x00 = place 7 := by decide
  have re : Runs n 7 e := rd.next he (rd.placed.setWord hroom _) rfl rfl hroutine
  refine ⟨e, (hd.arrives h.running).trans (he.arrives rd.running), re, ?_, ?_, ?_⟩
  · rw [he.regs]
    rfl
  · rw [he.regs]
    exact hdax
  · rw [re.top_eq, he.memory, he.regs]
    exact Bus.getWord_setWord _ _ _ _

theorem halts [LawfulMemory M] (h : Runs n 0 c) (hpos : 1 ≤ n.toNat) (hle : n.toNat ≤ 16000)
    (hsp : c.regs.sp = 0xFFFE) : ∃ d, c.Arrives (8 * n.toNat - 2) d ∧ d.halted = true ∧
      d.regs.ax = UInt16.ofNat n.toNat ! ∧ d.regs.sp = 0xFFFE ∧ Placed n d.memory := by
  have hsize : (place size).toNat = 0x0115 := by decide
  have hstack : (0xFFFC : UInt16).toNat = 0xFFFC := rfl
  obtain ⟨d, hd⟩ := h.enter hsp
  have hroom : (place size).toNat + 4 * (n.toNat - 1) ≤ d.regs.sp.toNat := by
    rw [hd.sp, hsize, hstack]
    omega
  obtain ⟨e, he⟩ := hd.runs.returns (j := n.toNat - 1) (by rw [hd.ax]; omega) hroom
    (by rw [hd.sp]; decide)
  have re : Runs n 6 e := ⟨he.ready, he.ip.trans hd.top⟩
  obtain ⟨f, hf, hhalted, hregs, hmemory⟩ := Cpu.step_hlt re.running (re.facing 0 rfl)
  refine ⟨f, ?_, hhalted, ?_, ?_, ?_⟩
  · have harrives := (hd.arrives.trans he.arrives).trans hf
    rwa [show 2 + (8 * (n.toNat - 1) + 3) + 1 = 8 * n.toNat - 2 by omega] at harrives
  · rw [hregs]
    refine he.ax.trans ?_
    rw [Nat.sub_add_cancel hpos]
  · rw [hregs]
    refine he.sp.trans ?_
    rw [hd.sp]
    rfl
  · rw [hmemory]
    exact re.placed

end Runs

/-- Without services the program computes any factorial for which the segment has room, and leaves
its own bytes and the stack as they were. -/
theorem recursive_factorial_halts [LawfulMemory M] {n : Nat} (hpos : 1 ≤ n) (hle : n ≤ 16000)
    {c : Cpu M H} (hc : c.Unserved) (hruns : Runs (UInt16.ofNat n) 0 c)
    (hsp : c.regs.sp = 0xFFFE) :
    ∃ d, Cpu.stepUpTo (8 * n - 2) c = .ok () d ∧ d.halted = true ∧
      d.regs.ax.toNat = n ! % 0x10000 ∧ d.regs.sp = 0xFFFE ∧ Placed (UInt16.ofNat n) d.memory ∧
      ∀ limit : Option Nat, 8 * n - 2 ≤ limit.getD Cpu.unlimited →
        Cpu.run limit c = .ok ⟨8 * n - 2, .halted⟩ d := by
  have hn : (UInt16.ofNat n).toNat = n := by
    rw [UInt16.toNat_ofNat']
    omega
  obtain ⟨d, hd, hhalted, hax, hdsp, hplaced⟩ := hruns.halts (by omega) (by omega) hsp
  rw [hn] at hd hax
  refine ⟨d, hd.stepUpTo, hhalted, ?_, hdsp, hplaced, fun limit hlimit => ?_⟩
  · rw [hax, UInt16.toNat_ofNat']
  · rw [Cpu.counting_unserved.run_of_halted hc hd.stepUpTo hhalted hlimit, hd.steps,
      Nat.add_sub_cancel_left]

def started (n : UInt16) : Cpu Ram Empty :=
  { Cpu.new Ram.blank .i8086 .silent with
    memory := Bus.setBytes Ram.blank segment 0x0100 (program n)
    regs := { Registers.zero with
      cs := segment, ds := segment, es := segment, ss := segment, ip := 0x0100, sp := 0xFFFE } }

theorem runs_started (n : UInt16) : Runs n 0 (started n) := by
  have hfit : (program n).size ≤ 0x10000 := show size ≤ 0x10000 by decide
  have hip : (0x0100 : UInt16) = place 0 := by decide
  have hcode := Bus.getBytes_setBytes Ram.blank segment 0x0100 hfit
  have hsize : (program n).size = size := rfl
  rw [hsize] at hcode
  exact ⟨⟨rfl, rfl, rfl, hcode⟩, hip⟩

/-- The deepest recursion takes 127998 steps and leaves the program whole. The factorial of 5 is
120. -/
theorem factorials_of_16000_and_5 :
    ((started 16000).Unserved ∧ ∃ d, Cpu.stepUpTo 127998 (started 16000) = .ok () d ∧
      d.halted = true ∧ d.regs.sp = 0xFFFE ∧ Placed 16000 d.memory) ∧
    (started 5).Unserved ∧ ∃ d, Cpu.stepUpTo 38 (started 5) = .ok () d ∧
      d.halted = true ∧ d.regs.ax.toNat = 120 := by
  have hu (n : UInt16) : (started n).Unserved := Services.get?_empty
  obtain ⟨d, hd, hhalted, -, hsp, hplaced, -⟩ := recursive_factorial_halts (n := 16000)
    (by decide) (by decide) (hu _) (runs_started _) rfl
  obtain ⟨e, he, hehalted, hax, -⟩ := recursive_factorial_halts (n := 5)
    (by decide) (by decide) (hu _) (runs_started _) rfl
  exact ⟨⟨hu _, d, hd, hhalted, hsp, hplaced⟩, hu _, e, he, hehalted, hax⟩

end Factorial
end RealMode
