import RealMode.Proofs.EncodingLength
import RealMode.Proofs.InstructionOutcome
import RealMode.Proofs.Pc.ReachableMachine
import RealMode.Proofs.ServiceReturn

/-! # Calls of the services -/
namespace RealMode

theorem Width.lowByte_truncate (v : UInt16) : lowByte (Width.byte.truncate v) = lowByte v := by
  apply UInt8.toNat_inj.mp
  simp only [truncate, low, modulus, lowByte, UInt8.toNat_ofNat', UInt16.toNat_ofNat']
  omega

theorem CodeView.decode_of_int {v : CodeView} (h : v.code 0 = 0xCD) :
    decode v = ⟨⟨.int, [.imm (wordOfByte (v.code 1)) .byte], none, false, none, 2⟩, none⟩ := by
  have hopcode : v.HasOpcode .none 0 (.plain .int [.imm .byte]) :=
    .first h (by decide) (by decide) (by decide +kernel)
  exact (Encodes.plain hopcode).decode_eq

structure Cpu.Calls {M H : Type} [Bus M] (c : Cpu M H) (vector : UInt8) : Prop where
  running : c.halted = false
  op : c.decoded.instruction.op = .int
  operands : c.decoded.instruction.operands = [.imm (wordOfByte vector) .byte]

theorem Cpu.Calls.raised?_eq {M H : Type} [Bus M] {c : Cpu M H} {vector : UInt8}
    (h : c.Calls vector) : c.raised? = some vector := by
  have htruncate : lowByte (Width.byte.truncate (wordOfByte vector)) = vector := by
    rw [Width.lowByte_truncate, lowByte_wordOfByte]
  rw [Cpu.raised?, h.running, if_neg Bool.false_ne_true, Instruction.raises?, h.op, h.operands]
  exact congrArg some htruncate

theorem Cpu.calls_of_bytes {M H : Type} [Bus M] {c : Cpu M H} {vector : UInt8}
    (hrunning : c.halted = false) (hopcode : Bus.getByte c.memory c.regs.cs c.regs.ip = 0xCD)
    (hvector : Bus.getByte c.memory c.regs.cs (c.regs.ip + 1) = vector) : c.Calls vector := by
  let v := CodeView.ofBus c.memory c.regs c.model c.regs.cs c.regs.ip
  have hfirst : v.code 0 = 0xCD := by simpa [v, CodeView.ofBus] using hopcode
  have hdecoded : c.decoded = _ := CodeView.decode_of_int hfirst
  have hsecond : v.code 1 = vector := hvector
  rw [hsecond] at hdecoded
  constructor
  · exact hrunning
  · rw [hdecoded]
  · rw [hdecoded]

namespace Pc

def servedVectors : List UInt8 := [0x10, 0x11, 0x12, 0x16, 0x1A, 0x20, 0x21]

theorem Service.get?_table {vector : UInt8} (h : vector ∈ servedVectors) :
    ∃ s, Service.table.get? vector = some s ∧ (s = .dos → vector = 0x21) := by
  have hput : ∀ v ∈ servedVectors, ∃ e ∈ biosEntries ++ dosEntries,
      TableChange.lastPut? v changes = some (some e.service) ∧ (e.service = .dos → v = 0x21) := by
    decide +kernel
  obtain ⟨e, -, hlast, hdos⟩ := hput vector h
  exact ⟨e.service, get?_table_of_lastPut? hlast, hdos⟩

/-- The address of a byte that is neither in the data area nor on the text page. -/
def Foreign (a : Nat) : Prop := (a < 0x400 ∨ 0x500 ≤ a) ∧ Board.OffPage a

/-- Of what an effect concerns, only vectors are foreign. -/
theorem Effect.not_covers_of_foreign {e : Effect} {a : Nat} (h : Foreign a)
    (hvector : ∀ v, e = .pointing v → ¬ InEntry v a) : ¬ e.Covers a := by
  rcases h with ⟨hout, hoff⟩
  intro hcovers
  cases e with
  | printing => exact hcovers hoff
  | publishing =>
    rcases hcovers with ⟨hlow, hhigh⟩
    omega
  | timing =>
    rcases hcovers with ⟨hlow, hhigh⟩
    omega
  | pointing v => exact hvector v rfl hcovers
  | loading s => exact hcovers
  | flagging f => exact hcovers
  | taking => exact hcovers
  | ending => exact hcovers

/-- The stack of the caller lies behind the vectors and the data area, and off the page. -/
def StackApart (c : Cpu Board Service) : Prop := ∀ a ∈ c.frame, 0x500 ≤ a ∧ Board.OffPage a

/-- The interrupt has come back to `c`, and its service has had no effects but these. -/
structure Returned (E : List Effect) (d c : Cpu Board Service) : Prop where
  ip : d.regs.ip = c.regs.ip
  registers : ∀ r ∈ keptRegisters, d.regs.get r = c.regs.get r
  segments : ∀ s, .loading s ∉ E → d.regs.getSeg s = c.regs.getSeg s
  control : ∀ f : Flag, f.isControl → d.flags.get f = c.flags.get f
  memory : ∀ a < memorySize, a ∉ c.frame → (∀ e ∈ E, ¬ e.Covers a) →
    Bus.read d.memory a = Bus.read c.memory a

theorem interrupt_returned {c : Cpu Board Service} {vector : UInt8} {s : Service}
    (hreg : c.services.get? vector = some s) (hstack : StackApart c) :
    ∃ e, Cpu.interrupt vector c = .ok () e ∧ Returned (s.effects c.regs) e c := by
  let d := s.serve (c.atService vector)
  have hconfined := s.confined_serve (c.atService vector)
  rw [s.effects_congr (c.get8_atService vector)] at hconfined
  have hframe : ∀ a ∈ c.frame, Bus.read d.memory a = Bus.read (c.atService vector).memory a := by
    intro a ha
    obtain ⟨hlow, hoff⟩ := hstack a ha
    apply hconfined.board.memory a (c.lt_of_mem_frame ha)
    intro e _
    apply e.not_covers_of_foreign ⟨.inr hlow, hoff⟩
    intro v _ hin
    have hlt := hin.lt
    omega
  obtain ⟨hgeneral, hsegments⟩ := c.sameOthers_atService vector
  let e := c.resumed d vector s
  have he : Cpu.interrupt vector c = .ok () e := Cpu.interrupt_of_return hreg rfl
    (hconfined.segments .ss (Service.loading_not_mem_effects (by decide)))
    (hconfined.registers .sp (by decide)) hframe
  have hregs : e.regs =
      { d.regs with cs := c.regs.cs, ip := c.regs.ip, sp := c.regs.sp } := rfl
  have hflags := c.get_flags_resumed d vector s
  have hmemory : e.memory = d.memory := rfl
  refine ⟨e, he, ?_⟩
  constructor
  · rw [hregs]
  · intro r hr
    by_cases hsp : r = .sp
    · rw [hregs, hsp]
      rfl
    · rw [← hgeneral r hsp, ← hconfined.registers r hr, hregs]
      cases r with
      | sp => exact absurd rfl hsp
      | _ => rfl
  · intro g hg
    by_cases hcs : g = .cs
    · rw [hregs, hcs]
      rfl
    · rw [← hsegments g hcs, ← hconfined.segments g hg, hregs]
      cases g with
      | cs => exact absurd rfl hcs
      | _ => rfl
  · intro f hf
    rw [hflags, if_pos hf]
  · intro a ha hout hquiet
    rw [hmemory, hconfined.board.memory a ha hquiet, Cpu.memory_atService]
    exact c.read_framed _ ha hout

/-- The caller `c` goes on in state `d` behind its call of a service. -/
structure ResumesAfter (vector : UInt8) (d c : Cpu Board Service) : Prop where
  ip : d.regs.ip = c.regs.ip + UInt16.ofNat c.decoded.instruction.length
  registers : ∀ r ∈ keptRegisters, d.regs.get r = c.regs.get r
  segments : ∀ s, s ≠ .es → d.regs.getSeg s = c.regs.getSeg s
  /-- Only the question for a vector is answered in ES. -/
  es : ¬ (vector = 0x21 ∧ c.regs.get8 .ah = 0x35) → d.regs.es = c.regs.es
  control : ∀ f : Flag, f.isControl → d.flags.get f = c.flags.get f
  memory : ∀ a < memorySize, a ∉ c.frame → Foreign a →
    ¬ (vector = 0x21 ∧ c.regs.get8 .ah = 0x25 ∧ InEntry (c.regs.get8 .al) a) →
      Bus.read d.memory a = Bus.read c.memory a

theorem Returned.resumesAfter {c d : Cpu Board Service} {vector : UInt8} {s : Service}
    (hdos : s = .dos → vector = 0x21)
    (h : Returned (s.effects c.atInstruction.regs) d c.atInstruction) :
    ResumesAfter vector d c := by
  have hregs := c.regs_atInstruction
  rw [s.effects_congr c.get8_atInstruction] at h
  have hsegments (g : SegReg) : c.atInstruction.regs.getSeg g = c.regs.getSeg g := by
    rw [hregs]
    cases g <;> rfl
  constructor
  · rw [h.ip, hregs]
  · intro r hr
    rw [h.registers r hr, hregs]
    cases r <;> rfl
  · intro g hg
    rw [h.segments g (Service.loading_not_mem_effects hg), hsegments]
  · intro hquestion
    refine (h.segments .es ?_).trans (hsegments .es)
    intro hes
    obtain ⟨hs, -, hah⟩ := Service.eq_of_loading hes
    exact hquestion ⟨hdos hs, hah⟩
  · intro f hf
    rw [h.control f hf, Cpu.flags_atInstruction]
  · intro a ha hout hforeign hrewritten
    rw [← c.memory_atInstruction]
    apply h.memory a ha (c.frame_atInstruction ▸ hout)
    intro e he
    apply e.not_covers_of_foreign hforeign
    rintro v rfl hin
    obtain ⟨hs, rfl, hah⟩ := Service.eq_of_pointing he
    exact hrewritten ⟨hdos hs, hah, hin⟩

section Started

variable {H : Type} (c : Cpu Board H) (segment : UInt16) (p : Program)

theorem memory_startProgram :
    (startProgram c segment p).memory = placeProgram c.memory segment p := by
  rw [startProgram, Cpu.memory_note]

theorem regs_startProgram : (startProgram c segment p).regs = entryRegisters segment := by
  rw [startProgram, Cpu.regs_note]

theorem halted_startProgram : (startProgram c segment p).halted = false := by
  rw [startProgram, Cpu.halted_note]

end Started

namespace Machine

/-- A call of a service is transparent to its caller. -/
theorem service_call_resumes {m : Machine Service} (hm : m.Reachable) {vector : UInt8}
    (hvector : vector ∈ servedVectors) (hcalls : m.cpu.Calls vector)
    (hstack : StackApart m.cpu) :
    ∃ k, Machine.step m = .ok () k ∧ ResumesAfter vector k.cpu m.cpu := by
  obtain ⟨s, hs, hdos⟩ := Service.get?_table hvector
  have hreg : m.cpu.atInstruction.services.get? vector = some s := by
    rw [Cpu.services_atInstruction, hm.sound.installed.services, hs]
  have hapart : StackApart m.cpu.atInstruction := by
    rw [StackApart, Cpu.frame_atInstruction]
    exact hstack
  obtain ⟨e, he, hreturned⟩ := interrupt_returned hreg hapart
  have hstep : Cpu.step m.cpu = .ok () e := (Cpu.step_of_raised hcalls.raised?_eq).trans he
  exact ⟨⟨e, m.config, m.program⟩, liftCpu_apply hstep, hreturned.resumesAfter hdos⟩

def callImage (vector : UInt8) : ByteArray := ⟨#[0xCD, vector]⟩

theorem size_callImage_le (vector : UInt8) : (callImage vector).size ≤ imageLimit := by
  have hsize : (callImage vector).size = 2 := rfl
  rw [hsize]
  decide

theorem load_callImage (m : Machine Service) (vector : UInt8) :
    load (callImage vector) "" m =
      .ok () ⟨startProgram m.cpu m.config.loadSegment ⟨callImage vector, ""⟩, m.config,
        some ⟨callImage vector, ""⟩⟩ :=
  load_eq_ok m "" (show 0 < 2 by omega) (size_callImage_le vector)

theorem calls_of_load {m k : Machine Service} {vector : UInt8}
    (h : load (callImage vector) "" m = .ok () k) : k.cpu.Calls vector := by
  rw [load_callImage] at h
  cases h
  have hfit : (callImage vector).size ≤ imageLimit := size_callImage_le vector
  have hbyte := fun i hi => getByte_placeProgram m.cpu.memory m.config.loadSegment
    (p := ⟨callImage vector, ""⟩) hfit (i := i) hi
  apply Cpu.calls_of_bytes
  · exact halted_startProgram _ _ _
  · rw [memory_startProgram, regs_startProgram]
    exact (hbyte 0 (show 0 < 2 by omega)).trans (if_pos (by decide))
  · rw [memory_startProgram, regs_startProgram]
    exact (hbyte 1 (show 1 < 2 by omega)).trans (if_pos (by decide))

/-- A machine about to set the video mode. -/
def settingMode : Machine Service := after (load (callImage 0x10) "") (new .standard .silent)

theorem reachable_settingMode : settingMode.Reachable :=
  Reachable.operation (.new .standard .silent) (.load (callImage 0x10) "")

theorem calls_settingMode : settingMode.cpu.Calls 0x10 := by
  apply calls_of_load (m := new .standard .silent)
  rw [settingMode, after, load_callImage]

theorem stackApart_settingMode : StackApart settingMode.cpu := by
  have hregs : settingMode.cpu.regs = entryRegisters 0x0700 := by
    rw [settingMode, after, load_callImage]
    exact regs_startProgram _ _ _
  rw [StackApart, Cpu.frame, hregs]
  decide

/-- Setting the mode clears the page, and the program goes on behind the call. -/
theorem settingMode_resumes :
    settingMode.Reachable ∧ 0x10 ∈ servedVectors ∧ settingMode.cpu.Calls 0x10 ∧
      StackApart settingMode.cpu ∧
      ∃ k, Machine.step settingMode = .ok () k ∧ ResumesAfter 0x10 k.cpu settingMode.cpu := by
  have hserved : (0x10 : UInt8) ∈ servedVectors := by decide
  exact ⟨reachable_settingMode, hserved, calls_settingMode, stackApart_settingMode,
    service_call_resumes reachable_settingMode hserved calls_settingMode stackApart_settingMode⟩

end Machine
end Pc
end RealMode
