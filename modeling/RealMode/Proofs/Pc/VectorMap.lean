import RealMode.Proofs.GuestReturn
import RealMode.Proofs.Pc.AnsweredCall

/-! # The vector table as a map -/
namespace RealMode.Pc

namespace Dos

variable {H : Type} {c : Cpu Board H}

section SetVector

variable (h : c.regs.get8 .ah = 0x25)
include h

theorem serve_eq_setVector : serve c =
    setVector ((c.note .bios .trace fun _ => callText c.regs).setFlag .carry false) := by
  simp only [serve, h]
  rfl

theorem memory_serve_of_setVector : (serve c).memory =
    writeVector c.memory (c.regs.get8 .al) ⟨c.regs.ds, c.regs.dx⟩ := by
  rw [serve_eq_setVector h, setVector]
  split
  next => rfl
  next => rfl

end SetVector

theorem regs_serve_of_getVector (h : c.regs.get8 .ah = 0x35) : (serve c).regs = { c.regs with
    es := (readVector c.memory (c.regs.get8 .al)).segment
    bx := (readVector c.memory (c.regs.get8 .al)).offset } := by
  simp only [serve, h]
  rfl

end Dos

def TableApart (c : Cpu Board Service) : Prop := ∀ a ∈ c.frame, 0x400 ≤ a

variable {c : Cpu Board Service}

theorem TableApart.not_inEntry (h : TableApart c) (v : UInt8) : ∀ a ∈ c.frame, ¬ InEntry v a := by
  intro a ha hin
  have hlow := h a ha
  have hlt := hin.lt
  omega

theorem TableApart.atInstruction (h : TableApart c) : TableApart c.atInstruction := by
  rw [TableApart, Cpu.frame_atInstruction]
  exact h

theorem memory_answered_of_setVector (h : c.regs.get8 .ah = 0x25) :
    (answered c 0x21 .dos).memory =
      writeVector (c.framed c.flags.word) (c.regs.get8 .al) ⟨c.regs.ds, c.regs.dx⟩ := by
  have hah : (c.atService 0x21).regs.get8 .ah = 0x25 := (c.get8_atService 0x21 _).trans h
  rw [memory_answered]
  refine (Dos.memory_serve_of_setVector hah).trans ?_
  rw [c.get8_atService, Cpu.memory_atService, Cpu.regs_atService]

section SetVector

variable (h : c.regs.get8 .ah = 0x25)
include h

theorem readVector_answered_of_setVector (hapart : TableApart c) (v : UInt8) :
    readVector (answered c 0x21 .dos).memory v =
      if v = c.regs.get8 .al then ⟨c.regs.ds, c.regs.dx⟩ else readVector c.memory v := by
  rw [memory_answered_of_setVector h]
  by_cases hv : v = c.regs.get8 .al
  · rw [if_pos hv, hv, readVector_writeVector_self]
  · rw [if_neg hv, readVector_writeVector_of_ne _ hv,
      Cpu.readVector_framed_of_apart (hapart.not_inEntry v)]

theorem read_answered_of_setVector {a : Nat} (ha : a < memorySize) (hframe : a ∉ c.frame)
    (hentry : ¬ InEntry (c.regs.get8 .al) a) :
    Bus.read (answered c 0x21 .dos).memory a = Bus.read c.memory a := by
  rw [memory_answered_of_setVector h, read_writeVector_of_not _ ha hentry,
    c.read_framed _ ha hframe]

end SetVector

theorem es_bx_answered_of_getVector (h : c.regs.get8 .ah = 0x35) (hapart : TableApart c) :
    (answered c 0x21 .dos).regs.es = (readVector c.memory (c.regs.get8 .al)).segment ∧
      (answered c 0x21 .dos).regs.bx = (readVector c.memory (c.regs.get8 .al)).offset := by
  have hah : (c.atService 0x21).regs.get8 .ah = 0x35 := (c.get8_atService 0x21 _).trans h
  have hregs := Dos.regs_serve_of_getVector hah
  rw [c.get8_atService, Cpu.memory_atService,
    Cpu.readVector_framed_of_apart (hapart.not_inEntry _)] at hregs
  have hes := getSeg_answered c 0x21 .dos (g := .es) (by decide)
  have hbx := get_answered c 0x21 .dos (r := .bx) (by decide)
  constructor
  · refine hes.trans ?_
    show (Dos.serve (c.atService 0x21)).regs.es = _
    rw [hregs]
  · refine hbx.trans ?_
    show (Dos.serve (c.atService 0x21)).regs.bx = _
    rw [hregs]

namespace Machine

def vectors (m : Machine Service) (v : UInt8) : FarPointer := readVector m.cpu.memory v

/-- Whoever asks for a vector or raises its interrupt finds this far pointer, unless the interrupt
is served. -/
structure FindsVector (m : Machine Service) (v : UInt8) (p : FarPointer) : Prop where
  asked : m.cpu.Calls 0x21 → m.cpu.regs.get8 .ah = 0x35 → m.cpu.regs.get8 .al = v →
    ∃ k, Machine.step m = .ok () k ∧ k.cpu.regs.es = p.segment ∧ k.cpu.regs.bx = p.offset
  raised : m.cpu.raised? = some v → m.cpu.services.get? v = none →
    ∃ k, Machine.step m = .ok () k ∧ k.cpu.regs.cs = p.segment ∧ k.cpu.regs.ip = p.offset
  served : ∀ s, m.cpu.raised? = some v → m.cpu.services.get? v = some s →
    ∃ k, Machine.step m = .ok () k ∧ k.cpu = answered m.cpu.atInstruction v s

theorem findsVector_vectors {m : Machine Service} (hm : m.Sound) (hapart : TableApart m.cpu)
    (v : UInt8) : m.FindsVector v (m.vectors v) := by
  have hmemory := m.cpu.memory_atInstruction
  have hservices := m.cpu.services_atInstruction
  constructor
  · intro hcalls hah hal
    rw [← m.cpu.get8_atInstruction] at hah hal
    have hanswer := es_bx_answered_of_getVector hah hapart.atInstruction
    rw [hal, hmemory] at hanswer
    exact ⟨_, step_eq_answered hm hcalls Service.get?_dos, hanswer⟩
  · intro hraised hnone
    rw [← hservices] at hnone
    have hregs := m.cpu.atInstruction.regs_atVector v
    rw [Cpu.readVector_framed_of_apart (hapart.atInstruction.not_inEntry v), hmemory] at hregs
    refine ⟨_, step_of_raised hraised (Cpu.interrupt_of_no_service hnone), ?_, ?_⟩
    · exact congrArg Registers.cs hregs
    · exact congrArg Registers.ip hregs
  · intro s hraised hsome
    rw [← hservices] at hsome
    exact ⟨_, step_of_raised hraised (interrupt_eq_answered hsome), rfl⟩

/-- After function 25 the vector in AL maps to DS:DX and all others to what they did before. The
four bytes of the entry and the frame are all that has changed in memory. Until something else is
written to the entry, DS:DX is found there. -/
theorem set_vector_is_found {m : Machine Service} (hm : m.Reachable) (hcalls : m.cpu.Calls 0x21)
    (hah : m.cpu.regs.get8 .ah = 0x25) (hapart : TableApart m.cpu) :
    ∃ k, Machine.step m = .ok () k ∧
      (∀ v, k.vectors v =
        if v = m.cpu.regs.get8 .al then ⟨m.cpu.regs.ds, m.cpu.regs.dx⟩ else m.vectors v) ∧
      (∀ a < memorySize, a ∉ m.cpu.frame → ¬ InEntry (m.cpu.regs.get8 .al) a →
        Bus.read k.cpu.memory a = Bus.read m.cpu.memory a) ∧
      ∀ n : Machine Service, n.Reachable → TableApart n.cpu →
        n.vectors (m.cpu.regs.get8 .al) = k.vectors (m.cpu.regs.get8 .al) →
        n.FindsVector (m.cpu.regs.get8 .al) ⟨m.cpu.regs.ds, m.cpu.regs.dx⟩ := by
  have hmemory := m.cpu.memory_atInstruction
  rw [← m.cpu.get8_atInstruction] at hah
  have hvectors (v : UInt8) : readVector (answered m.cpu.atInstruction 0x21 .dos).memory v =
      if v = m.cpu.regs.get8 .al then ⟨m.cpu.regs.ds, m.cpu.regs.dx⟩ else m.vectors v := by
    rw [readVector_answered_of_setVector hah hapart.atInstruction, m.cpu.get8_atInstruction,
      hmemory, m.cpu.regs_atInstruction]
    rfl
  refine ⟨_, step_eq_answered hm.sound hcalls Service.get?_dos, hvectors, ?_, ?_⟩
  · intro a ha hframe hentry
    rw [← m.cpu.frame_atInstruction] at hframe
    rw [← m.cpu.get8_atInstruction] at hentry
    rw [← hmemory]
    exact read_answered_of_setVector hah ha hframe hentry
  · intro n hn hn' hsame
    have hfound := hsame.trans ((hvectors _).trans (if_pos rfl))
    exact hfound ▸ findsVector_vectors hn.sound hn' _

theorem tableApart_redirect (m : Machine Service) (ip ax dx ds : UInt16) :
    TableApart (m.redirect ip ax dx ds).cpu := by
  rw [TableApart, frame_redirect]
  decide

theorem vectors_redirect (m : Machine Service) (ip ax dx ds : UInt16) :
    (m.redirect ip ax dx ds).vectors = m.vectors := by
  funext v
  rw [vectors, memory_redirect, vectors]

theorem code_apart {i : Nat} (hi : i < 4) : 0x400 ≤ physical 0x0700 (entryOffset + UInt16.ofNat i) ∧
    physical 0x0700 (entryOffset + UInt16.ofNat i) ∉
      (List.range 6).map fun i => physical 0x0700 (stackTop - UInt16.ofNat (i + 1)) := by
  have hall : ∀ i < 4, 0x400 ≤ physical 0x0700 (entryOffset + UInt16.ofNat i) ∧
      physical 0x0700 (entryOffset + UInt16.ofNat i) ∉
        (List.range 6).map fun i => physical 0x0700 (stackTop - UInt16.ofNat (i + 1)) := by decide
  exact hall i hi

theorem get?_sixty : Service.table.get? 0x60 = none := by
  have hlast : TableChange.lastPut? 0x60 Service.changes = none := by decide +kernel
  rw [Service.table, TableChange.get?_applyAll, hlast]
  exact Services.get?_empty _

/-- Vector 60 is pointed at 3000:0042. It is so when it is asked for, and INT 60 goes there. -/
theorem sixty_points_at_program :
    let m := poised 0x21 0x60 0x2560 0x0042 0x3000
    m.Reachable ∧ m.cpu.Calls 0x21 ∧ TableApart m.cpu ∧ ∃ k, Machine.step m = .ok () k ∧
      (∃ l, Machine.step (k.redirect entryOffset 0x3560 0 0) = .ok () l ∧
        l.cpu.regs.es = 0x3000 ∧ l.cpu.regs.bx = 0x0042) ∧
      ∃ l, Machine.step (k.redirect (entryOffset + 2) 0 0 0) = .ok () l ∧
        l.cpu.regs.cs = 0x3000 ∧ l.cpu.regs.ip = 0x0042 := by
  intro m
  have hm : m.Reachable := reachable_poised _ _ _ _ _
  have hcalls : m.cpu.Calls 0x21 := calls_poised _ _ _ _ _
  have hapart : TableApart m.cpu := tableApart_redirect _ _ _ _ _
  have hregs : m.cpu.regs = { entryRegisters 0x0700 with
      ax := 0x2560, dx := 0x0042, ds := 0x3000, es := 0x3000 } := regs_poised _ _ _ _ _
  have hah : m.cpu.regs.get8 .ah = 0x25 := by
    rw [hregs]
    decide
  have hal : m.cpu.regs.get8 .al = 0x60 := by
    rw [hregs]
    decide
  obtain ⟨k, hk, -, hmemory, hfound⟩ := set_vector_is_found hm hcalls hah hapart
  refine ⟨hm, hcalls, hapart, k, hk, ?_⟩
  rw [hal, hregs] at hfound
  have hreachable : k.Reachable := by
    have hstep : after (Operation.action .step) m = k := by
      show after Machine.step m = k
      rw [after, hk]
    exact hstep ▸ hm.operation .step
  have hcode {i : Nat} (hi : i < 4) : Bus.getByte k.cpu.memory 0x0700
      (entryOffset + UInt16.ofNat i) = (callsImage 0x21 0x60)[i] := by
    obtain ⟨hlow, hframe⟩ := code_apart hi
    rw [← getByte_poised 0x21 0x60 0x2560 0x0042 0x3000 hi]
    refine hmemory _ (physical_lt _ _) (fun h => hframe ?_) fun hin => ?_
    · exact frame_redirect _ _ _ _ _ ▸ h
    · have hlt := hin.lt
      omega
  have hfinds (ip ax : UInt16) := hfound (k.redirect ip ax 0 0)
    (reachable_redirect k ip ax 0 0 hreachable) (tableApart_redirect k ip ax 0 0)
    (congrFun (vectors_redirect k ip ax 0 0) _)
  constructor
  · refine (hfinds entryOffset 0x3560).asked ?_ ?_ ?_
    · exact calls_redirect _ _ _ (hcode (i := 0) (by omega)) (hcode (i := 1) (by omega))
    · rw [regs_redirect]
      show highByte 0x3560 = 0x35
      decide
    · rw [regs_redirect]
      show lowByte 0x3560 = 0x60
      decide
  · refine (hfinds (entryOffset + 2) 0).raised ?_ ?_
    · exact (calls_redirect _ _ _ (hcode (i := 2) (by omega))
        (hcode (i := 3) (by omega))).raised?_eq
    · rw [(reachable_redirect k (entryOffset + 2) 0 0 0 hreachable).sound.installed.services]
      exact get?_sixty

end Machine
end RealMode.Pc
