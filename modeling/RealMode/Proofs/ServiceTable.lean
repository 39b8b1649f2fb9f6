import RealMode.Proofs.FailedService
import RealMode.Proofs.InstructionReach
import Mathlib.Data.List.Induction

/-! # The table of services across an interrupt -/
namespace RealMode

variable {H : Type}

namespace Services

theorem ext_get? {s t : Services H} (h : ∀ u, s.get? u = t.get? u) : s = t := by
  cases s with
  | mk a =>
    cases t with
    | mk b =>
      congr 1
      apply Vector.ext
      intro i hi
      obtain ⟨u, rfl⟩ : ∃ u : UInt8, u.toNat = i := ⟨UInt8.ofNat i, UInt8.toNat_ofNat_of_lt hi⟩
      exact h u

theorem get?_insertIfNew (s : Services H) (v u : UInt8) (h : H) :
    (s.insertIfNew v h).get? u = if v = u then some ((s.get? v).getD h) else s.get? u := by
  unfold insertIfNew
  cases hv : s.get? v with
  | none => simp [insert]
  | some k =>
    simp only [Option.isNone_some, Bool.false_eq_true, ↓reduceIte, Option.getD_some]
    split
    next heq => rw [← heq, hv]
    next => rfl

theorem mem_registered (s : Services H) (v : UInt8) : v ∈ s.registered ↔ s.isRegistered v := by
  simp only [registered, List.mem_filter, List.mem_map, List.mem_range, and_iff_right_iff_imp]
  exact fun _ => ⟨v.toNat, v.toNat_lt, UInt8.ofNat_toNat⟩

theorem registered_eq_iff (s t : Services H) :
    s.registered = t.registered ↔ ∀ v, s.isRegistered v = t.isRegistered v := by
  constructor
  · intro h v
    rw [Bool.eq_iff_iff, ← mem_registered, ← mem_registered, h]
  · intro h
    rw [registered, registered, funext h]

end Services

inductive TableChange (H : Type) where
  | register (vector : UInt8) (service : H)
  | unregister (vector : UInt8)
  | clear

namespace TableChange

def apply (s : Services H) : TableChange H → Services H
  | register v h => s.insert v h
  | unregister v => s.erase v
  | clear => .empty

def applyAll (s : Services H) (changes : List (TableChange H)) : Services H :=
  changes.foldl apply s

def put? (v : UInt8) : TableChange H → Option (Option H)
  | register u h => if u = v then some (some h) else none
  | unregister u => if u = v then some none else none
  | clear => some none

def lastPut? (v : UInt8) (changes : List (TableChange H)) : Option (Option H) :=
  changes.reverse.findSome? (put? v)

theorem get?_apply (s : Services H) (o : TableChange H) (v : UInt8) :
    (apply s o).get? v = (o.put? v).getD (s.get? v) := by
  cases o with
  | register u h => by_cases huv : u = v <;> simp [apply, put?, Services.insert, huv]
  | unregister u => by_cases huv : u = v <;> simp [apply, put?, Services.erase, huv]
  | clear => simp [apply, put?]

theorem applyAll_concat (s : Services H) (changes : List (TableChange H)) (o : TableChange H) :
    applyAll s (changes ++ [o]) = apply (applyAll s changes) o := by
  simp [applyAll]

theorem get?_applyAll (s : Services H) (changes : List (TableChange H)) (v : UInt8) :
    (applyAll s changes).get? v = (lastPut? v changes).getD (s.get? v) := by
  induction changes using List.reverseRecOn with
  | nil => rfl
  | append_singleton changes o ih =>
    rw [applyAll_concat, get?_apply, ih]
    cases ho : o.put? v <;> simp [lastPut?, ho]

theorem isRegistered_applyAll_iff {s : Services H} {v : UInt8} {h : H} (hs : s.get? v = some h)
    (changes : List (TableChange H)) :
    (applyAll s changes).isRegistered v ↔ lastPut? v changes ≠ some none := by
  rw [Services.isRegistered, get?_applyAll, hs]
  rcases lastPut? v changes with _ | _ | k <;> simp

/-- The first table is the second, but may lack the service `h` at vector `v`. -/
structure Without (v : UInt8) (h : H) (t s : Services H) : Prop where
  others : ∀ u, u ≠ v → t.get? u = s.get? u
  own : t.get? v = s.get? v ∨ t.get? v = none ∧ s.get? v = some h

namespace Without

variable {v : UInt8} {h : H} {s t : Services H}

theorem erase (hs : s.get? v = some h) : Without v h (s.erase v) s := by
  constructor
  · intro u hu
    simp [Services.erase, hu.symm]
  · exact Or.inr ⟨by simp [Services.erase], hs⟩

theorem apply (k : Without v h t s) (o : TableChange H) :
    Without v h (TableChange.apply t o) (TableChange.apply s o) := by
  constructor
  · intro u hu
    rw [get?_apply, get?_apply, k.others u hu]
  · rw [get?_apply, get?_apply]
    cases o.put? v with
    | none => exact k.own
    | some x => exact Or.inl rfl

theorem applyAll (k : Without v h t s) (changes : List (TableChange H)) :
    Without v h (TableChange.applyAll t changes) (TableChange.applyAll s changes) := by
  induction changes generalizing t s with
  | nil => exact k
  | cons o changes ih => exact ih (k.apply o)

theorem insertIfNew_eq (k : Without v h t s) : t.insertIfNew v h = s.insertIfNew v h := by
  apply Services.ext_get?
  intro u
  rw [Services.get?_insertIfNew, Services.get?_insertIfNew]
  split
  next =>
    rcases k.own with hown | ⟨ht, hs⟩
    · rw [hown]
    · rw [ht, hs]
      rfl
  next hu => exact k.others u (Ne.symm hu)

end Without
end TableChange

namespace Cpu

variable {M : Type}

def stateAfter (r : EStateM.Result CpuError (Cpu M H) Unit) : Cpu M H :=
  match r with
  | .ok _ c => c
  | .error _ c => c

variable [Bus M]

/-- A run that makes the given changes to the table, in their order, and may do anything else
that leaves the table alone. -/
inductive Makes : List (TableChange H) → Cpu M H → Cpu M H → Prop where
  | nothing (c : Cpu M H) : Makes [] c c
  | other {changes : List (TableChange H)} {c d e : Cpu M H} (h : Makes changes c d)
      (same : e.SameServices d) : Makes changes c e
  | register {changes : List (TableChange H)} {c d : Cpu M H} (h : Makes changes c d)
      (vector : UInt8) (p : FarPointer) (service : H) :
      Makes (changes ++ [.register vector service]) c (d.register vector p service)
  | unregister {changes : List (TableChange H)} {c d : Cpu M H} (h : Makes changes c d)
      (vector : UInt8) :
      Makes (changes ++ [.unregister vector]) c { d with services := d.services.erase vector }
  | clear {changes : List (TableChange H)} {c d : Cpu M H} (h : Makes changes c d) :
      Makes (changes ++ [.clear]) c { d with services := .empty }

theorem Makes.services_eq {changes : List (TableChange H)} {c d : Cpu M H}
    (h : Makes changes c d) : d.services = TableChange.applyAll c.services changes := by
  induction h with
  | nothing => rfl
  | other _ same ih => exact Eq.trans same ih
  | register _ vector p service ih => rw [TableChange.applyAll_concat, ← ih]; rfl
  | unregister _ vector ih => rw [TableChange.applyAll_concat, ← ih]; rfl
  | clear _ ih => rw [TableChange.applyAll_concat]; rfl

theorem services_atService (c : Cpu M H) (vector : UInt8) :
    (c.atService vector).services = c.services.erase vector := rfl

theorem services_finishService (e : Entry) (vector : UInt8) (h : H)
    (r : EStateM.Result CpuError (Cpu M H) Unit) :
    (stateAfter (finishService e vector h r)).services =
      (stateAfter r).services.insertIfNew vector h := by
  cases r with
  | ok _ c =>
    have hfollows := Follows.refl { c with services := c.services.insertIfNew vector h }
    exact hfollows.hostReturn.services
  | error err c => rfl

variable [HostService M H]

theorem services_interrupt {c : Cpu M H} {vector : UInt8} {h : H}
    {changes : List (TableChange H)} (hreg : c.services.get? vector = some h)
    (hrun : Makes changes (c.atService vector)
      (stateAfter (HostService.serve h (c.atService vector)))) :
    (stateAfter (interrupt vector c)).services =
      (TableChange.applyAll c.services changes).insertIfNew vector h := by
  -- The changes start from the table without the service; filling its place makes up for that.
  rw [interrupt_of_service hreg, services_finishService, hrun.services_eq, services_atService]
  exact ((TableChange.Without.erase hreg).applyAll changes).insertIfNew_eq

/-- The vectors that have a service after the interrupt are those that the changes alone would
give one exactly if the service does not leave its own place empty. -/
theorem registered_after_interrupt_iff {c : Cpu M H} {vector : UInt8} {h : H}
    {changes : List (TableChange H)} (hreg : c.services.get? vector = some h)
    (hrun : Makes changes (c.atService vector)
      (stateAfter (HostService.serve h (c.atService vector)))) :
    (stateAfter (interrupt vector c)).services =
        (TableChange.applyAll c.services changes).insertIfNew vector h ∧
      ((stateAfter (interrupt vector c)).services.registered =
          (TableChange.applyAll c.services changes).registered ↔
        TableChange.lastPut? vector changes ≠ some none) := by
  have hservices := services_interrupt hreg hrun
  refine ⟨hservices, ?_⟩
  rw [hservices, ← TableChange.isRegistered_applyAll_iff hreg, Services.registered_eq_iff]
  constructor
  · intro hsame
    rw [← hsame, Services.isRegistered, Services.get?_insertIfNew, if_pos rfl]
    rfl
  · intro hown v
    unfold Services.isRegistered at hown ⊢
    rw [Services.get?_insertIfNew]
    split
    next heq =>
      rw [← heq, hown]
      rfl
    next => rfl

end Cpu

inductive Resident where
  | idle
  /-- Takes itself away. -/
  | leaving
  /-- Clears the table, has another take its place, and fails. -/
  | relaying

namespace Resident

def vector : UInt8 := 0x60

def stub : FarPointer := ⟨0x2000, 0⟩

def fault : CpuError := .service vector "relayed"

end Resident

instance {M : Type} [Bus M] : HostService M Resident where
  serve
    | .idle => pure ()
    | .leaving => modify fun c => { c with services := c.services.erase Resident.vector }
    | .relaying => do
      modify fun c => { c with services := .empty }
      modify (·.register Resident.vector Resident.stub .idle)
      throw Resident.fault

namespace Resident

def cpu (r : Resident) : Cpu Ram Resident :=
  ⟨.zero, .reset, .blank, (Services.empty.insert 0x61 .idle).insert vector r, 0, false, .i8086,
    .silent⟩

theorem get?_cpu (r : Resident) : r.cpu.services.get? vector = some r := by
  simp [cpu, Services.insert]

theorem makes_leaving (c : Cpu Ram Resident) :
    Cpu.Makes [.unregister vector] c (Cpu.stateAfter (HostService.serve leaving c)) :=
  .unregister (.nothing c) vector

theorem makes_relaying (c : Cpu Ram Resident) :
    Cpu.Makes [.clear, .register vector .idle] c (Cpu.stateAfter (HostService.serve relaying c)) :=
  .register (.clear (.nothing c)) vector stub .idle

/-- What has taken the place of a service stays there, although the service has failed. -/
theorem relay_stays :
    relaying.cpu.services.get? vector = some relaying ∧
      Cpu.Makes [.clear, .register vector .idle] (relaying.cpu.atService vector)
        (Cpu.stateAfter (HostService.serve relaying (relaying.cpu.atService vector))) ∧
      (Cpu.stateAfter (Cpu.interrupt vector relaying.cpu)).services.registered =
        (TableChange.applyAll relaying.cpu.services
          [.clear, .register vector .idle]).registered := by
  have hreg := get?_cpu relaying
  have hrun := makes_relaying (relaying.cpu.atService vector)
  have hlast : TableChange.lastPut? vector [.clear, .register vector idle] ≠ some none := by
    simp [TableChange.lastPut?, TableChange.put?]
  exact ⟨hreg, hrun, (Cpu.registered_after_interrupt_iff hreg hrun).2.mpr hlast⟩

/-- A service that takes itself away is there again after the interrupt. -/
theorem leaver_is_back :
    Cpu.Makes [.unregister vector] (leaving.cpu.atService vector)
        (Cpu.stateAfter (HostService.serve leaving (leaving.cpu.atService vector))) ∧
      (Cpu.stateAfter (Cpu.interrupt vector leaving.cpu)).services.isRegistered vector ∧
      ¬ (TableChange.applyAll leaving.cpu.services [.unregister vector]).isRegistered vector := by
  have hrun := makes_leaving (leaving.cpu.atService vector)
  refine ⟨hrun, ?_, ?_⟩
  · rw [Cpu.services_interrupt (get?_cpu leaving) hrun, Services.isRegistered,
      Services.get?_insertIfNew, if_pos rfl]
    rfl
  · rw [TableChange.isRegistered_applyAll_iff (get?_cpu leaving)]
    simp [TableChange.lastPut?, TableChange.put?]

end Resident
end RealMode
