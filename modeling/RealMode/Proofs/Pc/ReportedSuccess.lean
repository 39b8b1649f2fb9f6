import RealMode.Proofs.Pc.AnsweredCall
import RealMode.Proofs.Pc.BudgetedRuns

/-! # Reported success -/
namespace RealMode

namespace Cpu

variable {M H : Type} (c : Cpu M H)

theorem get_setFlag_self (a : Flag) (v : Bool) : (c.setFlag a v).flags.get a = v := by
  cases c
  exact (Flags.get_set _ _ _ _).trans (if_pos rfl)

end Cpu

namespace Pc

variable {H : Type}

namespace Dos

def functions : List UInt8 :=
  [0x00, 0x01, 0x02, 0x06, 0x07, 0x08, 0x09, 0x0B, 0x19, 0x25, 0x2A, 0x2C, 0x30, 0x35, 0x4C, 0x4D,
    0x51, 0x62]

theorem isSome_function?_iff (ah : UInt8) :
    (function? (H := H) ah).isSome ↔ ah ∈ functions := by
  constructor
  · intro h
    have hmem : ah.toNat ∈ functions.map UInt8.toNat := by
      rw [function?] at h
      split at h <;> rename_i hah
      case h_19 => cases h
      all_goals rw [hah]; decide
    obtain ⟨b, hb, heq⟩ := List.mem_map.mp hmem
    exact UInt8.toNat_inj.mp heq ▸ hb
  · have hall : functions.all (fun a => (function? (H := H) a).isSome) = true := rfl
    exact List.all_eq_true.mp hall ah

theorem carry_function {f : Cpu Board H → Cpu Board H} {c : Cpu Board H}
    (h : function? (c.regs.get8 .ah) = some f) :
    (f c).flags.get .carry = c.flags.get .carry := by
  apply (confined_function h).flag
  intro hcarry
  rw [effects] at hcarry
  split at hcarry
  case h_6 => simpa using consoleEffects_subset c.regs hcarry
  all_goals simp at hcarry

theorem carry_serve_of_known {c : Cpu Board H} (h : c.regs.get8 .ah ∈ functions) :
    (serve c).flags.get .carry = false := by
  let d := (c.note .bios .trace fun _ => callText c.regs).setFlag .carry false
  obtain ⟨f, hf⟩ := Option.isSome_iff_exists.mp ((isSome_function?_iff (H := H) _).mpr h)
  simp only [serve, hf]
  rw [carry_function (c := d) hf]
  exact Cpu.get_setFlag_self _ _ _

section Unknown

variable {c : Cpu Board H} (h : c.regs.get8 .ah ∉ functions)
include h

theorem serve_of_unknown : serve c =
    (unimplemented ((c.note .bios .trace fun _ => callText c.regs).setFlag .carry false) 0x21
      (c.regs.get8 .ah)).setReg .ax invalidFunction := by
  cases hf : function? (H := H) (c.regs.get8 .ah) with
  | some f =>
    have hknown : c.regs.get8 .ah ∈ functions :=
      (isSome_function?_iff (H := H) _).mp (hf ▸ rfl)
    exact absurd hknown h
  | none => simp only [serve, hf]

theorem carry_serve_of_unknown : (serve c).flags.get .carry = true := by
  rw [serve_of_unknown h]
  exact Cpu.get_setFlag_self _ _ _

theorem regs_serve_of_unknown : (serve c).regs = { c.regs with ax := 0x0001 } := by
  rw [serve_of_unknown h]
  rfl

theorem memory_serve_of_unknown : (serve c).memory = c.memory := by
  rw [serve_of_unknown h, Cpu.memory_setReg, memory_unimplemented, Cpu.memory_setFlag,
    Cpu.memory_note]

end Unknown

theorem carry_serve (c : Cpu Board H) :
    (serve c).flags.get .carry = decide (c.regs.get8 .ah ∉ functions) := by
  by_cases h : c.regs.get8 .ah ∈ functions
  · rw [carry_serve_of_known h, decide_eq_false (not_not_intro h)]
  · rw [carry_serve_of_unknown h, decide_eq_true h]

theorem halted_serve {c : Cpu Board H} {code : UInt8} (h : endingCode? 0x21 c.regs = some code) :
    (serve c).halted = true := by
  have hfunction : c.regs.get8 .ah = 0x00 ∨ c.regs.get8 .ah = 0x4C := by
    by_contra hno
    rw [endingCode?, if_neg (by decide), if_neg fun hz => hno (.inl hz.2),
      if_neg fun hx => hno (.inr hx.2)] at h
    cases h
  rcases hfunction with hah | hah
  · simp only [serve, hah]
    rfl
  · simp only [serve, hah]
    rfl

end Dos

section Unknown

variable {c : Cpu Board Service} (h : c.regs.get8 .ah ∉ Dos.functions)
include h

/-- Not even the frame has changed when the call of an unknown function returns. -/
theorem regs_answered_of_unknown (hreg : c.services.get? 0x21 = some .dos) :
    (answered c 0x21 .dos).regs = { c.regs with ax := 0x0001 } := by
  rw [← c.get8_atService 0x21] at h
  let d := Dos.serve (c.atService 0x21)
  have hregs : d.regs = { (c.atService 0x21).regs with ax := 0x0001 } :=
    Dos.regs_serve_of_unknown h
  have hmemory : d.memory = (c.atService 0x21).memory := Dos.memory_serve_of_unknown h
  have hreturn : Cpu.interrupt 0x21 c = .ok () (c.resumed d 0x21 .dos) :=
    Cpu.interrupt_of_return hreg rfl (by rw [hregs]) (by rw [hregs]) fun a _ => by rw [hmemory]
  rw [interrupt_eq_answered hreg] at hreturn
  rw [(EStateM.Result.ok.inj hreturn).2, Cpu.resumed, hregs, Cpu.regs_atService]
  rfl

end Unknown

/-- Every run that comes as far as `c` ends in `d` and says that the processor has halted. -/
def EndsRuns (d c : Cpu Board Service) : Prop :=
  ∀ start : Machine Service, start.Reachable → ∀ n limit,
    Cpu.stepUpTo n start.cpu = .ok () c → n < limit.getD Cpu.unlimited →
      ∃ s, Cpu.run limit start.cpu = .ok s d ∧ s.reason = .halted

theorem endsRuns_of_step {c d : Cpu Board Service} (hrunning : c.halted = false)
    (hstep : Cpu.step c = .ok () d) (hhalted : d.halted = true) : EndsRuns d c := by
  intro start hstart n limit hn hlimit
  have hcounting : Cpu.Counting (Installed start.config) := Installed.counting start.config
  have hinstalled := hstart.sound.installed
  have hlast : Cpu.stepUpTo (n + 1) start.cpu = .ok () d := by
    rw [hcounting.stepUpTo_add hinstalled hn, Cpu.stepUpTo_of_step hrunning hstep]
    rfl
  exact ⟨_, hcounting.run_of_halted hinstalled hlast hhalted hlimit, rfl⟩

namespace Machine

/-- What the caller of DOS learns about the function it has asked for. -/
structure ReportsSuccess (k m : Machine Service) : Prop where
  carry : k.cpu.flags.get .carry = decide (m.cpu.regs.get8 .ah ∉ Dos.functions)
  unknown : m.cpu.regs.get8 .ah ∉ Dos.functions → k.cpu.regs = { m.cpu.regs with
    ax := 0x0001, ip := m.cpu.regs.ip + UInt16.ofNat m.cpu.decoded.instruction.length }
  ends : ∀ code ∈ endingCode? 0x21 m.cpu.regs,
    k.cpu.halted = true ∧ k.exitCode = some code ∧ EndsRuns k.cpu m.cpu

/-- Behind a call of DOS, CF is clear just if its function exists. A run comes to its end there if
the function ends the program. -/
theorem dos_call_reports_success {m : Machine Service} (hm : m.Reachable)
    (hcalls : m.cpu.Calls 0x21) : ∃ k, Machine.step m = .ok () k ∧ ReportsSuccess k m := by
  let c := m.cpu.atInstruction
  have hreg : c.services.get? 0x21 = some .dos := hm.sound.services_atInstruction ▸ Service.get?_dos
  have hget8 (r : Reg8) : (c.atService 0x21).regs.get8 r = m.cpu.regs.get8 r :=
    (c.get8_atService 0x21 r).trans (m.cpu.get8_atInstruction r)
  have hstep := step_of_raised hcalls.raised?_eq (interrupt_eq_answered hreg)
  refine ⟨_, hstep, ?_⟩
  constructor
  · rw [get_flags_answered c 0x21 .dos rfl, ← hget8]
    exact Dos.carry_serve _
  · intro hunknown
    rw [← m.cpu.get8_atInstruction] at hunknown
    rw [regs_answered_of_unknown hunknown hreg, m.cpu.regs_atInstruction]
  · intro code hcode
    rw [← endingCode?_congr 0x21 hget8] at hcode
    have hhalted : (answered c 0x21 .dos).halted = true :=
      (halted_answered c 0x21 .dos).trans (Dos.halted_serve hcode)
    refine ⟨hhalted, ?_, endsRuns_of_step hcalls.running ?_ hhalted⟩
    · rw [exitCode, memory_answered]
      exact (Dos.exitCode_serve _).trans (by rw [hcode]; rfl)
    · exact (Cpu.step_of_raised hcalls.raised?_eq).trans (interrupt_eq_answered hreg)

/-- A program ends with code 7, and one finds that function FF does not exist. -/
theorem exit_with_seven_and_unknown_function :
    (∃ k, Machine.step (poised 0x21 0x20 0x4C07 0 0) = .ok () k ∧
      k.cpu.flags.get .carry = false ∧ k.exitCode = some 7 ∧
      ∃ s, Cpu.run (some 1) (poised 0x21 0x20 0x4C07 0 0).cpu = .ok s k.cpu ∧
        s.reason = .halted) ∧
    ∃ k, Machine.step (poised 0x21 0x20 0xFF00 0 0) = .ok () k ∧
      k.cpu.flags.get .carry = true ∧ k.cpu.regs.ax = 0x0001 := by
  constructor
  · have hm := reachable_poised 0x21 0x20 0x4C07 0 0
    obtain ⟨k, hk, hcarry, -, hends⟩ := dos_call_reports_success hm (calls_poised _ _ _ _ _)
    have hcode : endingCode? 0x21 (poised 0x21 0x20 0x4C07 0 0).cpu.regs = some 7 := by
      rw [regs_poised]
      decide
    obtain ⟨-, hexit, hruns⟩ := hends 7 hcode
    refine ⟨k, hk, ?_, hexit, hruns _ hm 0 (some 1) rfl (by decide)⟩
    rw [hcarry, regs_poised]
    decide
  · obtain ⟨k, hk, hcarry, hunknown, -⟩ :=
      dos_call_reports_success (reachable_poised 0x21 0x20 0xFF00 0 0) (calls_poised _ _ _ _ _)
    rw [regs_poised] at hcarry hunknown
    refine ⟨k, hk, hcarry.trans (by decide), ?_⟩
    rw [hunknown (by decide)]

end Machine
end Pc
end RealMode
