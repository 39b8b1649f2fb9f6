import RealMode.Proofs.Pc.ReachableMachine

/-! # Save states read back -/
namespace RealMode

namespace Json

theorem below?_ofNat {n limit : Nat} (h : n < limit) : (ofNat n).below? limit = some n := by
  simp [ofNat, below?, h]

theorem word?_ofNat (v : UInt16) : (ofNat v.toNat).word? = some v := by
  rw [word?, below?_ofNat v.toNat_lt, Option.map_some, UInt16.ofNat_toNat]

theorem count?_ofNat {n : Nat} (h : n < UInt64.size) : (ofNat n).count? = some n := below?_ofNat h

end Json

theorem Model.ofKey?_key (model : Model) : ofKey? model.key = some model := by
  cases model <;> decide

namespace Pc

theorem Config.model?_key (model : Model) : model? (.string model.key) = some model :=
  model.ofKey?_key

theorem RegisterImage.ofJson?_toJson (i : RegisterImage) : ofJson? i.toJson = some i := by
  simp [ofJson?, toJson, names, Json.get?, List.lookup_cons, Json.word?_ofNat, ofValues?]

namespace Machine

variable {H : Type}

theorem restorePart_apply {α : Type} {state part : Json} {name : String} {read : Json → Option α}
    {a : α} (hget : state.get? name = some part) (hread : read part = some a)
    (store : Machine H → α → Machine H) (m : Machine H) :
    restorePart state name read store m = .ok () (store m a) := by
  simp only [restorePart, hget, hread]
  rfl

/-- The machine with the processor state of another one, except for memory and services. -/
def takeOver (b a : Machine H) : Machine H :=
  { b with
    cpu := { b.cpu with
      regs := a.cpu.regs
      flags := a.cpu.flags
      model := a.cpu.model
      steps := a.cpu.steps
      halted := a.cpu.halted }
    config := { b.config with model := a.cpu.model } }

/-- Loading the state that one reachable machine has saved succeeds on any other. It leaves the
registers, the complete flags register, the model, the step count and the halted bit of the
first, and of the second everything else. (A step count has 64 bits.) -/
theorem loadState_saveState {a b : Machine Service} (ha : a.Reachable) (hb : b.Reachable)
    (hsteps : a.cpu.steps < UInt64.size) : loadState a.saveState b = .ok () (b.takeOver a) := by
  have hflags := hb.sound.installed.flags.setWord_word ha.sound.installed.flags
  let image : RegisterImage := ⟨a.cpu.regs, a.cpu.flags.word⟩
  have hregisters (m : Machine Service) : restorePart a.saveState "registers"
      RegisterImage.ofJson? restoreRegisters m = .ok () (m.restoreRegisters image) :=
    restorePart_apply rfl image.ofJson?_toJson restoreRegisters m
  have hmodel (m : Machine Service) : restorePart a.saveState "cpu_model" Config.model?
      setModel m = .ok () (m.setModel a.cpu.model) :=
    restorePart_apply rfl (Config.model?_key a.cpu.model) setModel m
  have hcounter : a.cpu.counter = a.cpu.steps := Nat.mod_eq_of_lt hsteps
  have hcount : (a.saveState.get? "steps" >>= Json.count?) = some a.cpu.steps := by
    rw [← Json.count?_ofNat hsteps, ← hcounter]
    rfl
  have hhalted : (a.saveState.get? "halted" >>= Json.bool?) = some a.cpu.halted := rfl
  unfold loadState
  rw [hcount, hhalted]
  show EStateM.bind _ _ b = _
  simp only [EStateM.bind, hregisters]
  show EStateM.bind _ _ _ = _
  simp only [EStateM.bind, hmodel]
  have htaken : b.takeOver a = ((((b.restoreRegisters image).setModel a.cpu.model).onCpu
      fun c => { c with steps := a.cpu.steps }).onCpu fun c =>
        { c with halted := a.cpu.halted }) := by
    cases b
    simp only [takeOver, restoreRegisters, setModel, onCpu, image, hflags]
  rw [htaken]
  rfl

theorem loadState_saveState_allLoaded :
    allLoaded.Reachable ∧ allLoaded.cpu.steps < UInt64.size ∧
      loadState allLoaded.saveState (new { Config.standard with model := .i80188 } .silent) =
        .ok () ((new { Config.standard with model := .i80188 } .silent).takeOver allLoaded) := by
  have hsteps : allLoaded.cpu.steps < UInt64.size := by
    show 0 < UInt64.size
    decide
  exact ⟨reachable_allLoaded, hsteps, loadState_saveState reachable_allLoaded
    (.new { Config.standard with model := .i80188 } .silent) hsteps⟩

end Machine
end Pc
end RealMode
