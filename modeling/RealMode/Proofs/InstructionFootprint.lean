import RealMode.Proofs.InstructionOutcome
import RealMode.Proofs.StringFootprint

/-! # Footprints of instructions -/
namespace RealMode

/-- The operations that set IP by themselves. INT, INT3 and INTO leave that to the interrupt. -/
def Op.transfers : Op → Bool
  | jcc _ | jmp | jmpFar | call | callFar | ret | retFar | loop | loope | loopne | jcxz | iret => true
  | _ => false

def Operand.cells : Operand → List Nat
  | mem m w => cell m.segment m.offset w
  | _ => []

namespace Instruction

section Footprint

variable {M H : Type} [Bus M] (i : Instruction) (c : Cpu M H)

def written : List Operand :=
  (i.op.uses.zip i.operands).filterMap fun (u, o) => if u = .write then some o else none

def pushes : Nat :=
  match i.op, i.operands with
  | .push, _ | .pushf, _ | .call, _ => 1
  | .callFar, _ => 2
  | .pusha, _ => 8
  | .enter, _ :: level :: _ => (c.value level).toNat % 32 + 1
  | _, _ => 0

def elementCount : Nat :=
  match i.repeated with
  | none => 1
  | some _ => c.regs.cx.toNat

def stored : List Nat :=
  match i.op with
  | .string op w => if op.stores then c.elements w (i.elementCount c) else []
  | _ => []

/-- The count of a shift, of which an extended processor takes five bits. -/
def shiftCount : Nat :=
  match i.operands[1]? with
  | none => 0
  | some count =>
    let n := (lowByte (c.value count)).toNat
    if c.model.extended then n % 32 else n

/-- The flags that it may change, unless it raises an interrupt. -/
def changes : List Flag :=
  match i.op with
  | .alu op => op.changes
  | .neg => Flag.status
  | .inc | .dec => Flag.counting
  | .test | .mul | .imul => Flag.logical
  | .imul3 => [.carry, .overflow]
  | .shift op => if i.shiftCount c = 0 then [] else op.changes (i.shiftCount c)
  | .daa | .das | .sahf => Flag.low
  | .aaa | .aas => [.carry, .auxiliary]
  | .aam | .aad => Flag.result
  | .popf | .iret => Flag.all
  | .string op _ => if op.isCompare ∧ i.elementCount c ≠ 0 then Flag.status else []
  | .clc | .stc | .cmc => [.carry]
  | .cld | .std => [.direction]
  | .cli | .sti => [.interrupt]
  | _ => []

def footprint : Footprint where
  addresses := i.written.flatMap Operand.cells ++ c.below (i.pushes c) ++ i.stored c
  flags := i.changes c
  moves := i.op.transfers || i.written.contains (.seg .cs)

theorem below_subset : c.below (i.pushes c) ⊆ (i.footprint c).addresses :=
  fun _ ha => List.mem_append_left _ (List.mem_append_right _ ha)

theorem stored_subset : i.stored c ⊆ (i.footprint c).addresses :=
  fun _ ha => List.mem_append_right _ ha

variable {i}

theorem mem_written {n : Nat} {o : Operand} (hu : i.op.uses[n]? = some .write)
    (ho : i.operands[n]? = some o) : o ∈ i.written := by
  have hzip : (i.op.uses.zip i.operands)[n]? = some (.write, o) :=
    List.getElem?_zip_eq_some.mpr ⟨hu, ho⟩
  exact List.mem_filterMap.mpr ⟨_, List.mem_of_getElem? hzip, if_pos rfl⟩

theorem cells_subset {o : Operand} (ho : o ∈ i.written) :
    o.cells ⊆ (i.footprint c).addresses := by
  intro a ha
  apply List.mem_append_left
  apply List.mem_append_left
  exact List.mem_flatMap.mpr ⟨o, ho, ha⟩

theorem moves_of_written (ho : .seg .cs ∈ i.written) : (i.footprint c).moves = true :=
  (Bool.or_eq_true _ _).mpr (.inr (List.contains_iff_mem.mpr ho))

end Footprint
end Instruction

namespace Cpu

variable {M H : Type} [Bus M]

/-- Where the action succeeds, it has stayed within the footprint. -/
def Stays {α : Type} (F : Footprint) (x : Exec M H α) (c : Cpu M H) : Prop :=
  ∀ a d, x c = .ok a d → d.Within F c

namespace Stays

variable {F : Footprint} {α β : Type} {c : Cpu M H}

theorem pure (a : α) : Stays F (Pure.pure a : Exec M H α) c := by
  intro b d h
  cases h
  exact .refl c

theorem throw (e : CpuError) : Stays F (MonadExcept.throw e : Exec M H α) c :=
  fun _ _ h => nomatch h

theorem bind {x : Exec M H α} {f : α → Exec M H β} (hx : Stays F x c)
    (hf : ∀ a d, x c = .ok a d → Stays F (f a) d) : Stays F (x >>= f) c := by
  intro b e he
  have he : EStateM.bind x f c = .ok b e := he
  unfold EStateM.bind at he
  cases hr : x c with
  | error err d =>
    rw [hr] at he
    exact nomatch he
  | ok a d =>
    rw [hr] at he
    exact (hf a d hr b e he).trans (hx a d hr)

theorem modify {f : Cpu M H → Cpu M H} (h : (f c).Within F c) :
    Stays F (modify f : Exec M H PUnit) c := by
  intro a d hd
  cases hd
  exact h

theorem modifyGet {f : Cpu M H → α × Cpu M H} (h : (f c).2.Within F c) :
    Stays F (modifyGet f : Exec M H α) c := by
  intro a d hd
  cases hd
  exact h

theorem get_bind {f : Cpu M H → Exec M H β} (hf : Stays F (f c) c) :
    Stays F (get >>= f) c := hf

theorem set_bind {d : Cpu M H} {x : Exec M H β} (h : d.Within F c) (hx : Stays F x d) :
    Stays F (set d >>= fun _ => x) c := fun a e he => (hx a e he).trans h

theorem ite {p : Prop} [Decidable p] {x y : Exec M H α} (hx : p → Stays F x c)
    (hy : ¬ p → Stays F y c) : Stays F (if p then x else y) c := by
  by_cases hp : p
  · rw [if_pos hp]
    exact hx hp
  · rw [if_neg hp]
    exact hy hp

theorem arg {i : Instruction} {n : Nat} {f : Operand → Exec M H β}
    (hf : ∀ o, i.operands[n]? = some o → Stays F (f o) c) : Stays F (i.arg n >>= f) c := by
  cases ho : i.operands[n]? with
  | none =>
    simp only [Instruction.arg, ho]
    intro a d hd
    cases hd
  | some o =>
    simp only [Instruction.arg, ho]
    exact hf o ho

theorem arg_of_eq {i : Instruction} {n : Nat} {o : Operand} {f : Operand → Exec M H β}
    (ho : i.operands[n]? = some o) (hf : Stays F (f o) c) : Stays F (i.arg n >>= f) c := by
  simp only [Instruction.arg, ho]
  exact hf

theorem store {o : Operand} (hcells : o.cells ⊆ F.addresses)
    (hcs : o = .seg .cs → F.moves = true) (v : UInt16) :
    Stays F (Cpu.store o v : Exec M H Unit) c := by
  have same := Within.refl (F := F) c
  cases o with
  | reg8 r => exact modify (same.setReg8 r _)
  | reg16 r => exact modify (same.setReg r v)
  | seg s => exact modify (same.setSeg (fun hs => hcs (congrArg Operand.seg hs)) v)
  | mem m w => exact modify (same.writeElement hcells v)
  | imm | near | far => exact throw _

omit F in
theorem eq_of_farTarget {i : Instruction} {d : Cpu M H} {p : FarPointer}
    (h : i.farTarget c = .ok p d) : d = c := by
  simp only [Instruction.farTarget, Instruction.arg] at h
  cases ho : i.operands[0]? with
  | none =>
    rw [ho] at h
    cases h
  | some o =>
    rw [ho] at h
    cases o with
    | mem m w =>
      cases h
      rfl
    | far segment offset =>
      cases h
      rfl
    | _ => cases h

theorem farTarget {i : Instruction} : Stays F (i.farTarget : Exec M H FarPointer) c := by
  apply arg
  intro o _
  apply get_bind
  cases o with
  | mem m w => exact pure _
  | far segment offset => exact pure _
  | _ => exact throw _

theorem branch {i : Instruction} (hmoves : F.moves = true) :
    Stays F (i.branch : Exec M H Unit) c :=
  arg fun _ _ => modify ((Within.refl c).setIp hmoves _)

theorem loop {i : Instruction} (hmoves : F.moves = true) (goesOn : Flags → Bool) :
    Stays F (i.loop goesOn : Exec M H Unit) c :=
  bind (modifyGet ((Within.refl c).setReg .cx _)) fun _ _ _ =>
    ite (fun _ => branch hmoves) (fun _ => pure _)

section Written

variable {i : Instruction} {d : Cpu M H}

theorem store_written {n : Nat} {o : Operand} (hu : i.op.uses[n]? = some .write)
    (ho : i.operands[n]? = some o) (v : UInt16) :
    Stays (i.footprint c) (Cpu.store o v : Exec M H Unit) d := by
  have hmem := Instruction.mem_written hu ho
  apply store (Instruction.cells_subset c hmem)
  rintro rfl
  exact Instruction.moves_of_written c hmem

theorem update (hu : i.op.uses[0]? = some .write) {f : Flags → Width → UInt16 → UInt16 × Flags}
    (hf : ∀ g w v, (f g w v).2.Touched (i.changes c) g) :
    Stays (i.footprint c) (i.update f : Exec M H Unit) c :=
  arg fun _ hdst => bind (modifyGet ((Within.refl c).setFlags (hf _ _ _)))
    fun r _ _ => store_written hu hdst r

theorem alu {op : AluOp} (hop : i.op = .alu op) :
    Stays (i.footprint c) (i.alu op : Exec M H Unit) c := by
  have hchanges : (i.footprint c).flags = op.changes := by
    rw [Instruction.footprint, Instruction.changes, hop]
  apply arg
  intro dst hdst
  apply arg
  intro src _
  apply bind
  · apply modifyGet
    apply (Within.refl c).setFlags
    rw [hchanges]
    exact .alu op c.flags dst.width _ _
  · intro r d _
    apply ite
    · intro hne
      apply store_written _ hdst r
      rw [hop]
      cases op with
      | cmp => exact absurd rfl hne
      | _ => rfl
    · intro _
      exact pure _

theorem shift {op : ShiftOp} (hop : i.op = .shift op) :
    Stays (i.footprint c) (i.shift op : Exec M H Unit) c := by
  apply arg
  intro dst hdst
  apply arg
  intro count hcount
  apply get_bind
  have hn : i.shiftCount c = if c.model.extended then (lowByte (c.value count)).toNat % 32
      else (lowByte (c.value count)).toNat := by
    rw [Instruction.shiftCount, hcount]
  dsimp only
  rw [← hn]
  apply ite
  · intro hne
    have hchanges : (i.footprint c).flags = op.changes (i.shiftCount c) := by
      rw [Instruction.footprint, Instruction.changes, hop]
      exact if_neg hne
    apply set_bind
    · apply (Within.refl c).setFlags
      rw [hchanges]
      exact .shift op c.flags dst.width _ _
    · apply store_written _ hdst
      rw [hop]
      rfl
  · intro _
    exact pure _

theorem loadFar {s : SegReg} (hs : s ≠ .cs) (hu : i.op.uses[0]? = some .write) :
    Stays (i.footprint c) (i.loadFar s : Exec M H Unit) c := by
  apply arg
  intro dst hdst
  apply arg
  intro src _
  apply get_bind
  cases src with
  | mem m w =>
    exact bind (store_written hu hdst _) fun _ d _ =>
      modify (f := (·.setSeg s _)) ((Within.refl d).setSeg (fun h => absurd h hs) _)
  | _ => exact throw _

end Written

theorem executeString {i : Instruction} {op : StringOp} {w : Width} (hop : i.op = .string op w) :
    Stays (i.footprint c) (i.executeString : Exec M H Unit) c := by
  have hstore (hstores : op.stores) :
      c.elements w (i.elementCount c) ⊆ (i.footprint c).addresses := by
    have hstored : i.stored c = c.elements w (i.elementCount c) := by
      simp only [Instruction.stored, hop, hstores, if_true]
    exact hstored ▸ i.stored_subset c
  have hcompare (hcompares : op.isCompare) (hcount : i.elementCount c ≠ 0) :
      Flag.status ⊆ (i.footprint c).flags := by
    have hchanges : i.changes c = Flag.status := by
      simp only [Instruction.changes, hop]
      exact if_pos ⟨hcompares, hcount⟩
    exact hchanges ▸ List.Subset.refl _
  unfold Instruction.executeString
  rw [hop]
  apply modify
  cases hrepeated : i.repeated with
  | none =>
    have hone : i.elementCount c = 1 := by rw [Instruction.elementCount, hrepeated]
    rw [hone] at hstore hcompare
    exact .single hstore (fun hcompares => hcompare hcompares Nat.one_ne_zero) _
  | some how =>
    have hall : i.elementCount c = c.regs.cx.toNat := by rw [Instruction.elementCount, hrepeated]
    rw [hall] at hstore hcompare
    refine .repeated hstore (fun hcompares hcx => hcompare hcompares ?_) _ _ _
    exact fun hzero => hcx (UInt16.toNat_inj.mp hzero)

theorem orDivideError [HostService M H] {f : Cpu M H → Option (Cpu M H)}
    (hsome : ¬ (f c).isNone) (h : ∀ d, f c = some d → d.Within F c) :
    Stays F (Instruction.orDivideError f) c := by
  apply get_bind
  cases hf : f c with
  | none => exact absurd (Option.isNone_iff_eq_none.mpr hf) hsome
  | some d =>
    intro a e he
    cases he
    exact h d hf

theorem unmet_of_quiet {p : Prop} [Decidable p] {vector : UInt8}
    (h : (if p then some vector else none) = none) : ¬ p := by
  intro hp
  rw [if_pos hp] at h
  cases h

variable [HostService M H]

section Families

variable {i : Instruction} {c : Cpu M H}

theorem execute_arithmetic (hf : i.op.family = .arithmetic) :
    Stays (i.footprint c) i.execute c := by
  obtain ⟨op, operands, repeated, lock, override, length⟩ := i
  have same {F : Footprint} := Within.refl (F := F) c
  unfold Instruction.execute
  cases op <;> cases hf <;> dsimp only
  case alu op => exact alu rfl
  case shift op => exact shift rfl
  case test =>
    exact arg fun _ _ => arg fun _ _ =>
      modify (same.setFlags ((Flags.Touched.refl _).bitwise (List.Subset.refl _) _ _))
  case inc => exact update rfl fun g w v => .inc g w v
  case dec => exact update rfl fun g w v => .dec g w v
  case neg =>
    refine update rfl fun g w v => ?_
    exact (Flags.Touched.refl g).subBorrow (S := Flag.status) (List.Subset.refl _) w 0 v false
  case not => exact update rfl fun g _ _ => .refl g
  case mul => exact arg fun _ _ => modify (same.multiply (List.Subset.refl _) _ _)
  case imul => exact arg fun _ _ => modify (same.multiplySigned (List.Subset.refl _) _ _)
  case imul3 =>
    exact arg fun _ hdst => arg fun _ _ => arg fun _ _ =>
      bind (modifyGet (same.setCarryOverflow (List.Subset.refl _) _)) fun _ _ _ =>
        store_written rfl hdst _

theorem execute_accumulator (hf : i.op.family = .accumulator) :
    Stays (i.footprint c) i.execute c := by
  obtain ⟨op, operands, repeated, lock, override, length⟩ := i
  have same {F : Footprint} := Within.refl (F := F) c
  unfold Instruction.execute
  cases op <;> cases hf <;> dsimp only
  case lahf | salc => exact modify (same.setReg8 _ _)
  case sahf => exact modify (same.setFlags (.setLowByte _ _ (List.Subset.refl _)))
  case cbw | cwd => exact modify (same.setReg _ _)
  case xlat => exact modify (same.lookUp _)
  case daa | das => exact modify (same.decimalAdjust (List.Subset.refl _) _)
  case aaa | aas => exact modify (same.asciiAdjust (List.Subset.refl _) _ _)
  case aad => exact arg fun _ _ => modify (same.joinDigits (List.Subset.refl _) _)

theorem execute_transfer (h : i.Fits) (hf : i.op.family = .transfer) :
    Stays (i.footprint c) i.execute c := by
  have hbelow := i.below_subset c
  obtain ⟨op, operands, repeated, lock, override, length⟩ := i
  have same {F : Footprint} := Within.refl (F := F) c
  unfold Instruction.execute
  cases op <;> cases hf <;> dsimp only
  case xchg =>
    exact arg fun _ ha => arg fun _ hb =>
      get_bind (bind (store_written rfl ha _) fun _ _ _ => store_written rfl hb _)
  case mov => exact arg fun _ hdst => arg fun _ _ => get_bind (store_written rfl hdst _)
  case lea =>
    refine arg fun dst hdst => arg fun src _ => ?_
    cases src with
    | mem m w => exact store_written rfl hdst m.offset
    | _ => exact throw _
  case lds | les => exact loadFar (by decide) rfl
  case push => exact arg fun _ _ => modify (.push hbelow _)
  case pushf => exact modify (.push hbelow _)
  case pusha => exact modify (.pushAll hbelow)
  case pop =>
    exact arg fun _ hdst => bind (modifyGet same.drop) fun _ _ _ => store_written rfl hdst _
  case popa => exact modify same.popAll
  case popf =>
    exact bind (modifyGet same.drop) fun _ d _ =>
      modify ((Within.refl d).setFlags (.setWord _ _ Flag.mem_all))
  case enter =>
    obtain ⟨size, os, rfl, -, hos⟩ := Use.exists_cons_of_fit h
    obtain ⟨level, os, rfl, -, -⟩ := Use.exists_cons_of_fit hos
    exact arg_of_eq rfl (get_bind (arg_of_eq rfl (modify (.enter _ _ hbelow))))
  case leave => exact modify same.leave
  case input =>
    exact arg fun _ hdst => arg fun _ _ =>
      bind (modifyGet (same.portIn _ _)) fun _ _ _ => store_written rfl hdst _
  case output => exact arg fun _ _ => arg fun _ _ => modify (same.portOut _ _ _)

theorem execute_control (hf : i.op.family = .control) :
    Stays (i.footprint c) i.execute c := by
  have hbelow := i.below_subset c
  obtain ⟨op, operands, repeated, lock, override, length⟩ := i
  have same {F : Footprint} := Within.refl (F := F) c
  unfold Instruction.execute
  cases op <;> cases hf <;> dsimp only
  case jcc cond => exact get_bind (ite (fun _ => branch rfl) fun _ => pure _)
  case jcxz => exact get_bind (ite (fun _ => branch rfl) fun _ => pure _)
  case jmp => exact branch rfl
  case loop | loope | loopne => exact loop rfl _
  case jmpFar => exact bind farTarget fun _ d _ => modify ((Within.refl d).jump rfl _)
  case call => exact arg fun _ _ => modify ((Within.push hbelow _).setIp rfl _)
  case callFar =>
    refine bind farTarget fun p d hd => modify ?_
    obtain rfl := eq_of_farTarget hd
    have hone := (Pushed.zero d).push (n := 2) hbelow (by decide) d.regs.cs
    exact (hone.push (n := 2) hbelow (by decide) _).within.jump rfl p
  case ret => exact modify (same.ret rfl operands)
  case retFar => exact modify (same.retFar rfl operands)
  case iret => exact modify (same.iret rfl Flag.mem_all)

theorem execute_processor (hf : i.op.family = .processor) :
    Stays (i.footprint c) i.execute c := by
  obtain ⟨op, operands, repeated, lock, override, length⟩ := i
  have same {F : Footprint} := Within.refl (F := F) c
  unfold Instruction.execute
  cases op <;> cases hf <;> dsimp only
  case string op w => exact executeString rfl
  case clc | stc | cmc | cld | std | cli | sti =>
    exact modify (same.setFlag (List.mem_singleton.mpr rfl) _)
  case hlt => exact modify (same.withHalted true)
  case wait | nop | esc => exact pure _

theorem execute_interrupting (h : i.Fits) (hf : i.op.family = .interrupting)
    (hquiet : i.raises? c = none) : Stays (i.footprint c) i.execute c := by
  obtain ⟨op, operands, repeated, lock, override, length⟩ := i
  have same {F : Footprint} := Within.refl (F := F) c
  unfold Instruction.execute
  cases op <;> cases hf <;> dsimp only
  case int3 | db | dw => exact nomatch hquiet
  case int =>
    obtain ⟨o, os, rfl, -⟩ := Use.exists_cons_of_fit h
    exact nomatch hquiet
  case into =>
    apply get_bind
    apply ite
    · intro htaken
      exact absurd htaken (unmet_of_quiet hquiet)
    · intro _
      exact pure _
  case div =>
    obtain ⟨src, os, rfl, -⟩ := Use.exists_cons_of_fit h
    have hsome := unmet_of_quiet hquiet
    exact arg_of_eq rfl (orDivideError hsome fun _ hd => same.divide? hd)
  case idiv =>
    obtain ⟨src, os, rfl, -⟩ := Use.exists_cons_of_fit h
    have hsome := unmet_of_quiet hquiet
    exact arg_of_eq rfl (orDivideError hsome fun _ hd => same.divideSigned? hd)
  case aam =>
    obtain ⟨base, os, rfl, -⟩ := Use.exists_cons_of_fit h
    have hbase := unmet_of_quiet hquiet
    refine arg_of_eq rfl (orDivideError ?_ fun d hd => ?_)
    · rw [if_neg hbase]
      exact Bool.false_ne_true
    · rw [if_neg hbase] at hd
      cases hd
      exact same.splitDigits (List.Subset.refl _) _
  case bound =>
    obtain ⟨index, os, rfl, -, hos⟩ := Use.exists_cons_of_fit h
    obtain ⟨bounds, os, rfl, hbounds, -⟩ := Use.exists_cons_of_fit hos
    cases bounds with
    | mem m w =>
      rw [Instruction.raises?] at hquiet
      refine arg_of_eq rfl (arg_of_eq rfl (get_bind (ite ?_ fun _ => pure _)))
      intro hout
      have hbeyond : Instruction.OutOfBounds c index m := hout
      exact absurd hbeyond (unmet_of_quiet hquiet)
    | _ => exact Bool.noConfusion hbounds

/-- An instruction that raises no interrupt stays within its footprint. -/
theorem stays_execute (h : i.Fits) (hquiet : i.raises? c = none) :
    Stays (i.footprint c) i.execute c := by
  cases hf : i.op.family with
  | arithmetic => exact execute_arithmetic hf
  | accumulator => exact execute_accumulator hf
  | transfer => exact execute_transfer h hf
  | control => exact execute_control hf
  | processor => exact execute_processor hf
  | interrupting => exact execute_interrupting h hf hquiet

end Families
end Stays
end Cpu
end RealMode
