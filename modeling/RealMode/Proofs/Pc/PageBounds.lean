import RealMode.Proofs.Pc.BudgetedRuns

/-! # Accesses to the page -/
namespace RealMode.Pc

theorem Service.failed_serve (s : Service) {c : Cpu Board Service}
    (h : c.memory.screen.OnPage) : (s.serve c).memory.failed = c.memory.failed :=
  (s.confined_serve c).board.steady.failed h

namespace Machine

/-- The next step succeeds and misses no byte of the page. The counter goes on by one, and from its
last value to 0. -/
theorem Sound.step {m : Machine Service} (h : m.Sound) :
    ∃ k, Machine.step m = .ok () k ∧ k.cpu.memory.failed = false ∧
      k.cpu.counter =
        if m.cpu.halted then m.cpu.counter else (m.cpu.counter + 1) % UInt64.size := by
  cases hhalted : m.cpu.halted with
  | true =>
    rw [if_pos rfl]
    exact ⟨m, liftCpu_apply (Cpu.step_of_halted hhalted), h.installed.failed, rfl⟩
  | false =>
    obtain ⟨c, hc, hinstalled, hcounted⟩ := Installed.counting m.config h.installed hhalted
    rw [if_neg Bool.false_ne_true]
    refine ⟨⟨c, m.config, m.program⟩, liftCpu_apply hc, hinstalled.failed, ?_⟩
    show c.counter = _
    rw [Cpu.counter, hcounted, Cpu.counter, Nat.mod_add_mod]

/-- A machine never fails. After whatever has been done with it the cursor is on the page, no access
has missed the page, none of a service that is called then does so, and the next step succeeds. -/
theorem performAll_safe (config : Config) (journal : Journal) (operations : List Operation) :
    let m := performAll operations (.new config journal)
    (m.cpu.memory.screen.row < rows ∧ m.cpu.memory.screen.col < columns) ∧
      m.cpu.memory.failed = false ∧
      (∀ (s : Service) (c : Cpu Board Service),
        let d := { c with memory := { c.memory with screen := m.cpu.memory.screen } }
        (s.serve d).memory.failed = d.memory.failed) ∧
      ∃ k, Machine.step m = .ok () k ∧ k.cpu.memory.failed = false ∧
        k.cpu.counter =
          if m.cpu.halted then m.cpu.counter else (m.cpu.counter + 1) % UInt64.size := by
  intro m
  have hsound : m.Sound := sound_performAll operations (sound_new config journal)
  have hpage := hsound.installed.onPage
  refine ⟨hpage, hsound.installed.failed, ?_, hsound.step⟩
  intro s c
  exact s.failed_serve hpage

end Machine
end RealMode.Pc
