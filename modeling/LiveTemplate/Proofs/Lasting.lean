import LiveTemplate.Proofs.Upholding

/-!
# How long a record is kept

A template that has been applied to a node keeps its record until it is
reverted from that node.  Applying it again is refused, to whichever node, and
applying or reverting another template concerns another record.  All other
operations leave records alone, whatever client code they run, unless this code
reverts the template itself.

A pass under way is different: its record is stored when it ends, whatever has
been stored meanwhile.
-/

namespace LiveTemplate

variable {σ : Type}

/-- If the template is in force at the node, it stays so with the same
record. -/
def World.KeepsRecord (t : TemplateId) (n : NodeId) (world later : World σ) :
    Prop :=
  ∀ record, (world.template t).applied = some (n, record) →
    (later.template t).applied = some (n, record)

variable {t : TemplateId} {n : NodeId} {host : Host σ}

namespace World.KeepsRecord

theorem refl (world : World σ) : world.KeepsRecord t n world := by
  intro _ inForce
  exact inForce

theorem trans {first second third : World σ}
    (early : first.KeepsRecord t n second)
    (late : second.KeepsRecord t n third) : first.KeepsRecord t n third := by
  intro record inForce
  exact late record (early record inForce)

theorem of_sameRecords {world later : World σ}
    (same : world.SameRecords later) : world.KeepsRecord t n later := by
  intro _ inForce
  exact (same t).trans inForce

theorem steady : Steady (World.KeepsRecord (σ := σ) t n) where
  refl := refl
  trans := trans
  release _ _ _ inner := inner

theorem revoke (r : RevokerId) :
    (Revoker.revoke r).Within (World.KeepsRecord (σ := σ) t n) := by
  intro world
  obtain ⟨_, _, _, left⟩ := Revoker.revoke_leaves r world
  rw [left]
  exact of_sameRecords fun _ => rfl

theorem store {other : TemplateId} (differs : t ≠ other)
    (entry : Option (NodeId × Record)) :
    (Template.update other fun template =>
      { template with applied := entry }).Within
        (World.KeepsRecord (σ := σ) t n) := by
  intro world record inForce
  rw [Template.template_update_of_ne _ _ differs]
  exact inForce

end World.KeepsRecord

/-- All that the library does keeps the record, apart from applying and
reverting the template. -/
theorem Host.Within.keepsRecord (within : host.Within (World.KeepsRecord t n)) :
    host.Upholds (World.KeepsRecord t n) where
  toWithin := within
  trans := World.KeepsRecord.trans
  aside _ _ _ _ same := .of_sameRecords same
  listenToObservable _ _ _ _ _ := .of_sameRecords fun _ => rfl
  listenToNode _ _ _ _ _ := .of_sameRecords fun _ => rfl
  revoke := World.KeepsRecord.revoke
  unhook _ _ := .of_sameRecords fun _ => rfl
  stopListening _ :=
    World.KeepsRecord.steady.bind World.KeepsRecord.steady.get fun _ =>
      World.KeepsRecord.steady.bind
        (fun _ => .of_sameRecords fun _ => rfl) fun _ =>
          World.KeepsRecord.steady.forM World.KeepsRecord.revoke

namespace Template

/-- What is in force is not applied again. -/
theorem keepsRecord_apply (host : Host σ) (t : TemplateId) (n m : NodeId)
    (world : World σ) :
    world.KeepsRecord t n ((apply host t m).after world) := by
  intro record inForce
  have refused : (apply host t m).after world = world := by
    unfold Act.after
    rw [run_apply, inForce]
    rfl
  rw [refused]
  exact inForce

private theorem keepsRecord_revert {m : NodeId} (differs : n ≠ m)
    (world : World σ) :
    world.KeepsRecord t n
      ((revert t m : Act σ (Except TemplateError Unit)).after world) := by
  intro record inForce
  have refused : (revert t m : Act σ _).after world = world := by
    unfold Act.after
    rw [run_revert, inForce]
    dsimp only
    rw [if_neg differs]
  rw [refused]
  exact inForce

end Template

/-- Every operation keeps the record but the one that reverts the template from
the node. -/
theorem Operation.keepsRecord (within : host.Within (World.KeepsRecord t n))
    {operation : Operation} (spares : operation ≠ .revert t n)
    (world : World σ) :
    world.KeepsRecord t n (operation.after host world) := by
  have others (apart : ∀ m, operation ≠ .apply t m ∧ operation ≠ .revert t m) :
      world.KeepsRecord t n (operation.after host world) := by
    refine within.keepsRecord.operation (fun other m either entry => ?_) world
    refine World.KeepsRecord.store (fun same => ?_) entry
    subst same
    exact either.elim (apart m).1 (apart m).2
  cases operation with
  | apply other m =>
      by_cases same : other = t
      · rw [same]
        exact Template.keepsRecord_apply host t n m world
      · exact others fun _ => ⟨fun equal => same (by cases equal; rfl), nofun⟩
  | revert other m =>
      by_cases same : other = t
      · subst same
        exact Template.keepsRecord_revert (fun equal => spares (by rw [equal]))
          world
      · exact others fun _ => ⟨nofun, fun equal => same (by cases equal; rfl)⟩
  | _ => exact others fun _ => ⟨nofun, nofun⟩

/-- Operations come one after the other, none of which reverts the template from
the node, and so does whatever concerns no records. -/
inductive Meanwhile (host : Host σ) (t : TemplateId) (n : NodeId) :
    World σ → World σ → Prop where
  | aside {world later : World σ} :
      world.SameRecords later → Meanwhile host t n world later
  | operation (world : World σ) (operation : Operation) :
      operation ≠ .revert t n →
      Meanwhile host t n world (operation.after host world)
  | trans {first second third : World σ} :
      Meanwhile host t n first second → Meanwhile host t n second third →
      Meanwhile host t n first third

theorem Meanwhile.keepsRecord {world later : World σ}
    (meanwhile : Meanwhile host t n world later)
    (within : host.Within (World.KeepsRecord t n)) :
    world.KeepsRecord t n later := by
  induction meanwhile with
  | aside same => exact .of_sameRecords same
  | operation world _ spares => exact Operation.keepsRecord within spares world
  | trans _ _ early late => exact early.trans late

end LiveTemplate
