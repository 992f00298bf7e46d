import LiveTemplate.Proofs.Composition

/-!
# The operations of collections, step by step

What adding, removing and clearing do once they have looked up what they need.
-/

namespace LiveTemplate.Collection

variable {σ : Type}

@[simp] theorem collection_update (c : CollectionId)
    (change : Collection → Collection) (world : World σ) :
    ((update c change).after world).collection c =
      change (world.collection c) := by
  simp [update, World.collection]

theorem collection_update_of_ne {c other : CollectionId}
    (change : Collection → Collection) (world : World σ)
    (differs : other ≠ c) :
    ((update c change).after world).collection other =
      world.collection other := by
  have indexes : other.index ≠ c.index := by
    intro same
    apply differs
    cases other
    cases c
    exact congrArg CollectionId.mk same
  simp [update, World.collection, Store.get_modify_of_ne _ _ indexes]

/-- A view that is to be added is mounted first. -/
def mounting (host : Host σ) (c : CollectionId) (v : ViewId) :
    Act σ (Except TemplateError NodeId) :=
  keeping (.refs [.collection c, .view v]) (View.mount host v)

/-- The view has become a member. -/
def joined (world : World σ) (c : CollectionId) (index : Nat) (v : ViewId) :
    World σ :=
  (update c fun collection => { collection with
    members := collection.members.insertIdx index v }).after world

/-- The element of a new member is put in its place. -/
def seated (world : World σ) (c : CollectionId) (index : Nat)
    (element : NodeId) : World σ :=
  match (world.collection c).parent with
  | some parent =>
      { world with
        dom := world.dom.insertBefore parent element
          (referenceFor world (world.collection c) index parent) }
  | none => world

theorem run_addAt (host : Host σ) (c : CollectionId) (index : Nat)
    (v : ViewId) (world : World σ) :
    addAt host c index v world =
      match (mounting host c v).result world with
      | .error error => (.error error, (mounting host c v).after world)
      | .ok element =>
          let place := min index (world.collection c).members.length
          (.ok (), seated (joined ((mounting host c v).after world) c place v)
            c place element) := by
  have looks : addAt host c index v = (get >>= fun world =>
      let place := min index (world.collection c).members.length
      mounting host c v >>= fun outcome =>
        match outcome with
        | .error error => pure (.error error)
        | .ok element => do
            update c fun collection => { collection with
              members := collection.members.insertIdx place v }
            let world ← get
            match (world.collection c).parent with
            | some parent =>
                modifyDom fun dom => dom.insertBefore parent element
                  (referenceFor world (world.collection c) place parent)
                return .ok ()
            | none => return .ok ()) := rfl
  rw [looks]
  change (match (mounting host c v).result world with
    | .error error => pure (.error error)
    | .ok element => do
        update c fun collection => { collection with
          members := collection.members.insertIdx
            (min index (world.collection c).members.length) v }
        let later ← get
        match (later.collection c).parent with
        | some parent =>
            modifyDom fun dom => dom.insertBefore parent element
              (referenceFor later (later.collection c)
                (min index (world.collection c).members.length) parent)
            return .ok ()
        | none => return .ok () : Act σ (Except TemplateError Unit))
      ((mounting host c v).after world) = _
  cases (mounting host c v).result world with
  | error error => rfl
  | ok element =>
      dsimp only
      change (match ((joined ((mounting host c v).after world) c
          (min index (world.collection c).members.length) v).collection
            c).parent with
        | some parent => _
        | none => _ : Act σ (Except TemplateError Unit)) (joined _ _ _ _) = _
      unfold seated
      split <;> simp_all <;> rfl

/-- Without a place a view is added at the end. -/
theorem after_add (host : Host σ) (c : CollectionId) (v : ViewId)
    (world : World σ) :
    (add host c v).after world =
      (addAt host c (world.collection c).members.length v).after world := by
  unfold add
  rw [Act.after_bind, Act.result_get, Act.after_get]

theorem after_remove (c : CollectionId) (index : Nat) (world : World σ) :
    (remove c index).after world =
      match (world.collection c).members[index]? with
      | none => world
      | some v => (detach c v).after ((update c fun collection =>
          { collection with
            members := collection.members.eraseIdx index }).after world) := by
  unfold remove
  rw [Act.after_bind, Act.result_get, Act.after_get]
  cases (world.collection c).members[index]? <;> rfl

theorem after_detach (c : CollectionId) (v : ViewId) (world : World σ) :
    (detach c v).after world =
      match (world.collection c).parent, (world.view v).element with
      | some parent, some element =>
          { world with dom := world.dom.removeChild parent element }
      | _, _ => world := by
  unfold detach
  rw [Act.after_bind, Act.result_get, Act.after_get]
  cases (world.collection c).parent <;> cases (world.view v).element <;> rfl

theorem after_clear (c : CollectionId) (world : World σ) :
    (clear c).after world =
      ((world.collection c).members.forM (detach c)).after
        ((update c fun collection =>
          { collection with members := [] }).after world) := rfl

/-- Some collections are told their parent and their anchors. -/
def tellEach (parent : NodeId) (collections : List (CollectionId × Option NodeId)) :
    Act σ Unit :=
  collections.forM fun entry => setParent entry.1 parent entry.2

theorem after_tellEach (parent : NodeId)
    (collections : List (CollectionId × Option NodeId)) (world : World σ) :
    ∃ told, (tellEach parent collections).after world =
      { world with collections := told } := by
  induction collections generalizing world with
  | nil => exact ⟨_, rfl⟩
  | cons entry rest ih =>
      exact ih ((setParent entry.1 parent entry.2).after world)

theorem members_tellEach (parent : NodeId)
    (collections : List (CollectionId × Option NodeId)) (world : World σ)
    (c : CollectionId) :
    (((tellEach parent collections).after world).collection c).members =
      (world.collection c).members := by
  induction collections generalizing world with
  | nil => rfl
  | cons entry rest ih =>
      exact (ih ((setParent entry.1 parent entry.2).after world)).trans
        ((sameSetup_setParent entry.1 parent entry.2 world).members c)

theorem collection_tellEach_of_not_mem {parent : NodeId}
    {collections : List (CollectionId × Option NodeId)} {c : CollectionId}
    (absent : c ∉ collections.map Prod.fst) (world : World σ) :
    ((tellEach parent collections).after world).collection c =
      world.collection c := by
  induction collections generalizing world with
  | nil => rfl
  | cons entry rest ih =>
      rw [List.map_cons, List.mem_cons, not_or] at absent
      exact (ih absent.2 ((setParent entry.1 parent entry.2).after world)).trans
        (collection_update_of_ne _ _ absent.1)

/-- Each of them remembers what it has been told. -/
theorem told_tellEach {parent : NodeId}
    {collections : List (CollectionId × Option NodeId)}
    (distinct : (collections.map Prod.fst).Nodup) (world : World σ)
    {entry : CollectionId × Option NodeId} (member : entry ∈ collections) :
    let told := ((tellEach parent collections).after world).collection entry.1
    told.parent = some parent ∧ told.anchor = entry.2 := by
  induction collections generalizing world with
  | nil => cases member
  | cons first rest ih =>
      obtain ⟨absent, distinct⟩ := List.nodup_cons.mp distinct
      rcases List.mem_cons.mp member with rfl | member
      · have kept := @collection_tellEach_of_not_mem σ parent _ _ absent
          ((setParent entry.1 parent entry.2).after world)
        have row := collection_update entry.1 (fun collection =>
          { collection with parent := some parent, anchor := entry.2 }) world
        have told := kept.trans row
        exact ⟨congrArg Collection.parent told, congrArg Collection.anchor told⟩
      · exact ih distinct ((setParent first.1 parent first.2).after world) member

end LiveTemplate.Collection
