import RealMode.Proofs.Pc.LawfulBoard
import RealMode.Proofs.PlainMemory

/-! # Interchangeable memories -/
namespace RealMode

variable {M H : Type} [Bus M] [PlainMemory M]

/-- Plain memory, flat memory and the board do for every access what its bytes do one by one, in
order. From equal contents they give equal answers and keep equal contents. A processor without
services on a plain memory goes through the same states as one on a flat memory. -/
theorem memories_interchangeable [HostService M H] [HostService Ram H] :
    (∀ x : Access,
      (∀ m : M, x.perform m = Transfer.performAll x.transfers m) ∧
      (∀ r : Ram, x.perform r = Transfer.performAll x.transfers r) ∧
      ∀ b : Pc.Board, x.perform b = Transfer.performAll x.transfers b) ∧
    (∀ (xs : List Access) (m : M) (r : Ram) (b : Pc.Board),
      Bus.SameContents m r → Bus.SameContents b r →
        (Access.performAll xs m).1 = (Access.performAll xs r).1 ∧
        (Access.performAll xs b).1 = (Access.performAll xs r).1 ∧
        Bus.SameContents (Access.performAll xs m).2 (Access.performAll xs r).2 ∧
        Bus.SameContents (Access.performAll xs b).2 (Access.performAll xs r).2) ∧
    ∀ (n : Nat) (c : Cpu M H) (d : Cpu Ram H), c.Unserved → c.SameState d →
      ∃ c' d', Cpu.stepTimes n c = .ok () c' ∧ Cpu.stepTimes n d = .ok () d' ∧ c'.SameState d' := by
  let _ := PlainMemory.lawfulBus M
  refine ⟨fun x => ⟨?_, ?_, ?_⟩, ?_, ?_⟩
  · exact x.perform_eq_performAll
  · exact x.perform_eq_performAll
  · exact x.perform_eq_performAll
  · intro xs m r b hm hb
    obtain ⟨hanswers, hcontents⟩ := Access.performAll_same hm xs
    obtain ⟨hboard, hkept⟩ := Access.performAll_same hb xs
    exact ⟨hanswers, hboard, hcontents, hkept⟩
  · intro n c d hc h
    exact h.stepTimes hc n

/-- A word across the top of memory, four bytes across the end of a segment and their copy. -/
def crossingAccesses : List Access :=
  [.setWord 0xFFFF 0x000F 0x1234, .fill 0 0xFFFE 4 7, .copy 0 0xFFFE 0x1000 0 4 .backward,
    .getWord 0xFFFF 0x000F]

theorem sameContents_bare (r : Ram) : Bus.SameContents (⟨r⟩ : BareRam) r := fun _ _ => rfl

theorem sameContents_board (b : Pc.Board) : Bus.SameContents b b.ram := fun _ ha => b.read_of_lt ha

theorem blank_memories_interchangeable :
    let board : Pc.Board :=
      ⟨.blank, .empty, .start, false, .zero, 0, ∅, .empty, false, .empty, false, 640, none⟩
    let c : Cpu BareRam Empty := ⟨.zero, .reset, ⟨.blank⟩, .empty, 0, false, .i8086, .silent⟩
    let d : Cpu Ram Empty := ⟨.zero, .reset, .blank, .empty, 0, false, .i8086, .silent⟩
    Bus.SameContents c.memory d.memory ∧ Bus.SameContents board d.memory ∧
      (Access.performAll crossingAccesses c.memory).1 =
        (Access.performAll crossingAccesses d.memory).1 ∧
      (Access.performAll crossingAccesses board).1 =
        (Access.performAll crossingAccesses d.memory).1 ∧
      c.Unserved ∧ c.SameState d ∧
      ∃ c' d', Cpu.stepTimes 3 c = .ok () c' ∧ Cpu.stepTimes 3 d = .ok () d' ∧
        c'.SameState d' := by
  intro board c d
  have hplain := sameContents_bare .blank
  have hboard := sameContents_board board
  have hc : c.Unserved := Services.get?_empty
  have hsame : c.SameState d := ⟨rfl, rfl, hplain, rfl, rfl, rfl, rfl, rfl⟩
  obtain ⟨-, hanswers, hsteps⟩ := memories_interchangeable (M := BareRam) (H := Empty)
  obtain ⟨hbare, hpc, -⟩ := hanswers crossingAccesses c.memory d.memory board hplain hboard
  exact ⟨hplain, hboard, hbare, hpc, hc, hsame, hsteps 3 c d hc hsame⟩

end RealMode
