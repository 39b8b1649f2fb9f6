import RealMode.Proofs.BudgetedRuns
import RealMode.Proofs.ControlFlow
import RealMode.Proofs.Pc.LoadedImage
import RealMode.Proofs.Pc.SoundMachine
import RealMode.Proofs.TiledListing
import RealMode.Session

/-! # Printed listings -/
namespace RealMode

open CommandLine Pc ListedInstruction

namespace Session

/-- The lines for entries of which `passed` bytes have gone before. -/
def linesFrom (segment : UInt16) (start size : Nat) : Nat → List ListedInstruction → List String
  | _, [] => []
  | passed, x :: xs =>
    if size ≤ passed then []
    else
      listingLine segment (start + passed) x ::
        linesFrom segment start size (passed + x.bytes.size) xs

theorem linesFrom_of_le {segment : UInt16} {start size passed : Nat} (h : size ≤ passed)
    (xs : List ListedInstruction) : linesFrom segment start size passed xs = [] := by
  cases xs with
  | nil => rfl
  | cons x xs => rw [linesFrom, if_pos h]

theorem toList_listingLines (segment start : UInt16) (size : Nat) (xs : List ListedInstruction) :
    (listingLines segment start size xs).toList = linesFrom segment start.toNat size 0 xs := by
  -- The fold goes on behind the image's end, but it prints no more.
  have hfold (f : Nat × Array String → ListedInstruction → Nat × Array String)
      (hf : ∀ s x, f s x = if size ≤ s.1 then s
        else (s.1 + x.bytes.size, s.2.push (listingLine segment (start.toNat + s.1) x)))
      (s : Nat × Array String) :
      (xs.foldl f s).2.toList = s.2.toList ++ linesFrom segment start.toNat size s.1 xs := by
    induction xs generalizing s with
    | nil => exact (List.append_nil _).symm
    | cons x xs ih =>
      rw [List.foldl_cons, ih, hf]
      by_cases hend : size ≤ s.1
      · rw [if_pos hend, linesFrom_of_le hend, linesFrom_of_le hend]
      · rw [if_neg hend, linesFrom, if_neg hend, Array.toList_push, List.append_assoc]
        rfl
  refine hfold _ ?_ (0, #[])
  rintro ⟨passed, lines⟩ x
  rfl

/-- Each line shows an entry of those that start inside the image, at its offset, and only the
image's end or that of the entries ends the lines. -/
structure Prints (segment : UInt16) (start size passed : Nat) (xs : List ListedInstruction)
    (lines : List String) : Prop where
  shows : ∀ {k : Nat} {line : String}, lines[k]? = some line →
    ∃ x, xs[k]? = some x ∧ passed + span (xs.take k) < size ∧
      line = listingLine segment (start + (passed + span (xs.take k))) x
  ends : lines.length = xs.length ∨
    lines.length < xs.length ∧ size ≤ passed + span (xs.take lines.length)

theorem prints_linesFrom (segment : UInt16) (start size passed : Nat)
    (xs : List ListedInstruction) :
    Prints segment start size passed xs (linesFrom segment start size passed xs) := by
  induction xs generalizing passed with
  | nil => exact ⟨(nomatch ·), .inl rfl⟩
  | cons x xs ih =>
    by_cases hend : size ≤ passed
    · rw [linesFrom_of_le hend]
      exact ⟨(nomatch ·), .inr ⟨Nat.succ_pos _, hend⟩⟩
    · obtain ⟨hshows, hends⟩ := ih (passed + x.bytes.size)
      rw [linesFrom, if_neg hend]
      constructor
      · intro k line hline
        cases k with
        | zero =>
          obtain rfl := Option.some.inj hline
          exact ⟨x, rfl, Nat.not_le.mp hend, rfl⟩
        | succ k =>
          simpa only [List.getElem?_cons_succ, List.take_succ_cons, span_cons,
            ← Nat.add_assoc] using hshows hline
      · simpa only [List.length_cons, List.take_succ_cons, span_cons, ← Nat.add_assoc,
          Nat.add_right_cancel_iff, Nat.add_lt_add_iff_right] using hends

theorem exists_loaded (j : Journal) {image : ByteArray} (himage : imageFault? image = none)
    (model : Model) :
    ∃ m : Machine Service,
      Machine.load image "" (.new { Config.standard with model := model } j) = .ok () m ∧
      m.cpu.regs.ip = entryOffset ∧ ∀ capacity q,
        listing capacity image q (.new { Config.standard with model := model } j) =
          Machine.disassemble capacity q.count m := by
  have hload := Machine.load_of_imageFault himage
    (.new { Config.standard with model := model } j : Machine Service) ""
  exact ⟨_, hload, rfl, fun capacity q => bind_of_ok hload⟩

section List

variable (j : Journal) {image : ByteArray} {q : ListRequest} {model : Model} {capacity : Nat}
  (himage : imageFault? image = none) (hmodel : Model.ofName? q.cpu = some model)
include himage hmodel

theorem list_prints (hcount : q.count ≤ capacity) :
    ∃ (m : Machine Service) (lines : List String),
      Machine.load image "" (.new { Config.standard with model := model } j) = .ok () m ∧
      m.cpu.regs.ip = entryOffset ∧
      (list capacity j image q).result = .ok none ∧
      (list capacity j image q).output = (String.join lines).toUTF8 ∧
      Prints m.cpu.regs.cs 0x100 image.size 0 (m.cpu.listing q.count entryOffset) lines := by
  obtain ⟨m, hload, hip, hlisting⟩ := exists_loaded j himage model
  obtain ⟨ns, hns⟩ := m.cpu.disassemble_eq hcount
  have hlisted := (hlisting capacity q).trans (Machine.liftCpu_apply hns)
  rw [hip] at hlisted
  have hmodel : Session.model q.cpu = .ok model := by rw [Session.model, hmodel]
  refine ⟨m, _, hload, hip, ?_, ?_, prints_linesFrom _ _ _ _ _⟩
  · simp only [list, hmodel, hlisted]
  · simp only [list, hmodel, hlisted, toList_listingLines, Cpu.noteAll]
    rw [hip]
    rfl

theorem list_of_lt (hcount : capacity < q.count) :
    (list capacity j image q).result = .error .noRoom ∧
      (list capacity j image q).output = ByteArray.empty := by
  obtain ⟨m, -, -, hlisting⟩ := exists_loaded j himage model
  have hlisted := (hlisting capacity q).trans
    (Machine.liftCpu_apply (m.cpu.disassemble_of_lt hcount))
  have hmodel : Session.model q.cpu = .ok model := by rw [Session.model, hmodel]
  simp only [list, hmodel, hlisted, Report.failed, and_self]

end List
end Session

/-- Disassembly answers `n` entries if there is room for them, each the instruction decoded behind
those before it, and together the bytes from CS:IP on; a running processor executes the first of
them next. The listing of an image prints those that start inside it, each with its offset. -/
theorem listing_tiles_code {M H : Type} [Bus M] [HostService M H] (c : Cpu M H)
    {capacity n : Nat} (hn : n ≤ capacity) (j : Journal) {image : ByteArray} (q : ListRequest)
    {model : Model} (himage : imageFault? image = none)
    (hmodel : Model.ofName? q.cpu = some model) (hcount : q.count ≤ capacity) :
    (∃ xs ns, Cpu.disassemble capacity n c = .ok (some xs) (c.noteAll ns) ∧ xs.length = n ∧
      code xs = (Bus.getBytes c.memory c.regs.cs c.regs.ip (span xs)).data.toList ∧
      (∀ k x, xs[k]? = some x → c.EntryAt (c.regs.ip + UInt16.ofNat (span (xs.take k))) x) ∧
      ∀ x, xs[0]? = some x →
        Cpu.step c = if c.halted then .ok () c else x.instruction.execute c.atInstruction) ∧
    (∃ (m : Machine Service) (xs : List ListedInstruction) (ns : List Note) (lines : List String),
      Machine.load image "" (.new { Config.standard with model := model } j) = .ok () m ∧
      m.cpu.regs.ip = 0x0100 ∧
      Cpu.disassemble capacity q.count m.cpu = .ok (some xs) (m.cpu.noteAll ns) ∧
      (Session.list capacity j image q).result = .ok none ∧
      (Session.list capacity j image q).output = (String.join lines).toUTF8 ∧
      (∀ k line, lines[k]? = some line → ∃ x, xs[k]? = some x ∧ span (xs.take k) < image.size ∧
        0x0100 + span (xs.take k) ≤ 0xFFFF ∧
        line = Session.listingLine m.cpu.regs.cs (0x0100 + span (xs.take k)) x) ∧
      (lines.length = q.count ∨
        lines.length < q.count ∧ image.size ≤ span (xs.take lines.length))) ∧
    ∀ m, capacity < m → Cpu.disassemble capacity m c = .ok none c ∧
      (Session.list capacity j image { q with count := m }).result = .error .noRoom ∧
      (Session.list capacity j image { q with count := m }).output = ByteArray.empty := by
  refine ⟨?_, ?_, ?_⟩
  · obtain ⟨ns, hns⟩ := c.disassemble_eq hn
    refine ⟨_, ns, hns, c.length_listing n _, c.code_listing n _, ?_, ?_⟩
    · intro k x hx
      exact Cpu.entryAt_listing hx
    · intro x hx
      exact Cpu.step_listing hx
  · obtain ⟨m, lines, hload, hip, hresult, houtput, hshows, hends⟩ :=
      Session.list_prints j himage hmodel hcount
    obtain ⟨ns, hns⟩ := m.cpu.disassemble_eq hcount
    rw [hip] at hns
    have hfit : image.size ≤ 0xFF00 := Machine.size_le_of_imageFault himage
    simp only [Nat.zero_add, Cpu.length_listing] at hshows hends
    refine ⟨m, _, ns, lines, hload, hip, hns, hresult, houtput, ?_, hends⟩
    intro k line hline
    obtain ⟨x, hx, hinside, htext⟩ := hshows hline
    exact ⟨x, hx, hinside, by omega, htext⟩
  · intro m hm
    exact ⟨c.disassemble_of_lt hm, Session.list_of_lt j himage hmodel hm⟩

/-- Entries at a NOP, and the listing of an image of two instructions. -/
theorem nop_ret_listed :
    imageFault? ⟨#[0x90, 0xC3]⟩ = none ∧ Model.ofName? "8086" = some .i8086 ∧
      (∃ xs ns, Cpu.disassemble 5 2 (Cpu.atNop false) =
          .ok (some xs) ((Cpu.atNop false).noteAll ns) ∧
        xs.length = 2 ∧ ∀ x, xs[0]? = some x →
          Cpu.step (Cpu.atNop false) = x.instruction.execute (Cpu.atNop false).atInstruction) ∧
      (Session.list 5 .silent ⟨#[0x90, 0xC3]⟩ ⟨"", "8086", 5⟩).result = .ok none ∧
      (Session.list 5 .silent ⟨#[0x90, 0xC3]⟩ ⟨"", "8086", 6⟩).result = .error .noRoom := by
  have himage : imageFault? ⟨#[0x90, 0xC3]⟩ = none := by decide
  have hmodel : Model.ofName? "8086" = some .i8086 := by decide +kernel
  obtain ⟨⟨xs, ns, hxs, hlength, -, -, hfirst⟩, ⟨-, -, -, -, -, -, -, hresult, -⟩, hbeyond⟩ :=
    listing_tiles_code (Cpu.atNop false) (show 2 ≤ 5 by decide) .silent ⟨"", "8086", 5⟩ himage
      hmodel (Nat.le_refl 5)
  exact ⟨himage, hmodel, ⟨xs, ns, hxs, hlength, hfirst⟩, hresult, (hbeyond 6 (by decide)).2.1⟩

/-- A halted processor goes past no entry, and for 2^64 - 1 entries no host has room. -/
theorem halted_step_takes_no_entry :
    (∃ xs ns x, Cpu.disassemble 1 1 (Cpu.atNop true) =
        .ok (some xs) ((Cpu.atNop true).noteAll ns) ∧ xs[0]? = some x ∧
      Cpu.step (Cpu.atNop true) ≠ x.instruction.execute (Cpu.atNop true).atInstruction) ∧
    Cpu.disassemble Session.listingCapacity 0xFFFFFFFFFFFFFFFF (Cpu.atNop true) =
      .ok none (Cpu.atNop true) := by
  refine ⟨?_, (Cpu.atNop true).disassemble_of_lt (by decide)⟩
  obtain ⟨ns, hns⟩ := (Cpu.atNop true).disassemble_eq (Nat.le_refl 1)
  refine ⟨_, ns, _, hns, rfl, ?_⟩
  intro h
  have hnop : ((Cpu.atNop true).decodedAt (Cpu.atNop true).regs.ip).instruction = .bare .nop [] 1 :=
    Cpu.instruction_atNop true
  have hexecute (c : Cpu Ram Empty) : (Instruction.bare .nop [] 1).execute c = .ok () c := rfl
  rw [Cpu.step_of_halted rfl, Cpu.listed, hnop, hexecute] at h
  injection h with _ hstate
  have hsteps := congrArg Cpu.steps hstate
  rw [Cpu.steps_atInstruction] at hsteps
  exact absurd hsteps (Nat.ne_of_lt (Nat.lt_succ_self _))

end RealMode
