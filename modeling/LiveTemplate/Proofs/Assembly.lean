import LiveTemplate.Dom.Fixture
import LiveTemplate.Proofs.Building
import LiveTemplate.Proofs.Collections

/-!
# Documents are forests

Documents are put together by hand, from fixtures, and by templates, views and
collections.  As long as nothing is put into itself or into something below it,
parents and children agree at every moment, and so they do in what a client
sees of a document once the trees that nobody holds have fallen apart.
-/

namespace LiveTemplate

variable {σ : Type}

namespace Dom

variable {dom later : Dom}

/-- What is above a node that was there was there as well. -/
theorem old_of_inside (tidy : dom.IsTidy) (linked : later.IsLinked)
    (parents : ∀ m : NodeId, m.index < dom.nodes.size →
      later.parent? m = dom.parent? m) {outer inner : NodeId}
    (inside : later.Inside outer inner)
    (old : inner.index < dom.nodes.size) : outer.index < dom.nodes.size := by
  induction inside with
  | here => exact old
  | @under n child inner member _ ih =>
      have found := (linked n child).mp member
      rw [parents child (ih old)] at found
      exact lt_size_of_child ((tidy.linked n child).mpr found)

/-- A tree has been built beside the nodes there were. -/
structure Grown (dom later : Dom) (n : NodeId) : Prop where
  forest : later.IsForest
  size : dom.nodes.size ≤ later.nodes.size
  old : ∀ m : NodeId, m.index < dom.nodes.size → later.node m = dom.node m
  new : dom.nodes.size ≤ n.index
  alone : later.parent? n = none
  solid : later.isFragment n = false

theorem Grown.inside (grown : Grown dom later n) (tidy : dom.IsTidy)
    {m : NodeId} (old : m.index < dom.nodes.size) : ¬later.Inside n m := by
  intro inside
  refine absurd grown.new (Nat.not_le.mpr ?_)
  refine old_of_inside tidy grown.forest.tidy.linked (fun m old => ?_) inside
    old
  unfold parent?
  rw [grown.old m old]

/-- Trees have been built as children of a node. -/
structure Furnished (dom later : Dom) (parent : NodeId) : Prop where
  forest : later.IsForest
  size : dom.nodes.size ≤ later.nodes.size
  others : ∀ m : NodeId, m.index < dom.nodes.size → m ≠ parent →
    later.node m = dom.node m
  above : later.parent? parent = dom.parent? parent
  kind : later.kind parent = dom.kind parent

theorem Furnished.refl (forest : dom.IsForest) (parent : NodeId) :
    Furnished dom dom parent := by
  exact ⟨forest, Nat.le_refl _, fun _ _ _ => rfl, rfl, rfl⟩

theorem Furnished.trans {between : Dom} {parent : NodeId}
    (first : Furnished dom between parent)
    (second : Furnished between later parent) : Furnished dom later parent where
  forest := second.forest
  size := Nat.le_trans first.size second.size
  others m old differs :=
    (second.others m (Nat.lt_of_lt_of_le old first.size) differs).trans
      (first.others m old differs)
  above := second.above.trans first.above
  kind := second.kind.trans first.kind

/-- A tree that was built is put at the end of a node. -/
theorem Grown.furnish {n parent : NodeId} (forest : dom.IsForest)
    (there : parent.index < dom.nodes.size)
    (notText : dom.isText parent = false) (grown : Grown dom later n) :
    Furnished dom (later.appendChild parent n) parent := by
  have same : later.node parent = dom.node parent := grown.old parent there
  have differs : n ≠ parent := by
    rintro rfl
    exact absurd grown.new (Nat.not_le.mpr there)
  have moved : later.moved n = [n] := by
    simp [Dom.moved, grown.solid]
  have notText : later.isText parent = false := by
    unfold isText kind at notText ⊢
    rw [same]
    exact notText
  have appended := appended notText differs (grown.forest.tidy.nodup n)
    (by simp [grown.alone])
  refine ⟨grown.forest.insertBefore (fun _ m member => ?_) none,
    Nat.le_trans grown.size appended.size, fun m old apart => ?_, ?_, ?_⟩
  · rw [moved, List.mem_singleton] at member
    rw [member]
    exact grown.inside forest.tidy there
  · have other : m ≠ n := by
      rintro rfl
      exact absurd grown.new (Nat.not_le.mpr old)
    rw [← grown.old m old]
    exact appended.node_eq apart (by simp [grown.alone]) other
      (by simp [moved, other])
  · rw [appended.parent?, moved, if_neg (by simp [Ne.symm differs])]
    unfold parent?
    rw [same]
  · rw [appended.kind]
    unfold kind
    rw [same]

/-- Attributes are part of one node and leave the tree alone. -/
theorem furnished_setAttributes (forest : dom.IsForest) (n : NodeId)
    (attributes : List (String × String)) :
    let later := attributes.foldl
      (fun dom (name, value) => dom.setAttribute n name value) dom
    later.IsForest ∧ dom.nodes.size ≤ later.nodes.size ∧
      (∀ m, m ≠ n → later.node m = dom.node m) ∧
      later.parent? n = dom.parent? n ∧
      later.isFragment n = dom.isFragment n ∧
      later.isText n = dom.isText n := by
  induction attributes generalizing dom with
  | nil => exact ⟨forest, Nat.le_refl _, fun _ _ => rfl, rfl, rfl, rfl⟩
  | cons entry rest ih =>
      obtain ⟨name, value⟩ := entry
      have changed := forest.modifyAttributes n (Attribute.set · name value)
      obtain ⟨later, size, others, above, fragment, text⟩ := ih changed
      refine ⟨later, Nat.le_trans (size_le_modifyAttributes _ _ _) size,
        fun m apart => ?_, above.trans (parent?_modifyAttributes _ _ _ _),
        fragment.trans (isFragment_modifyAttributes _ _ _ _),
        text.trans (isText_modifyAttributes _ _ _ _)⟩
      exact (others m apart).trans (node_modifyAttributes_of_ne _ _ apart)

end Dom

namespace Fixture

open Dom

mutual

/-- Mounting a fixture builds a tree beside the nodes there were. -/
theorem grown_mount {dom : Dom} (forest : dom.IsForest) (fixture : Fixture) :
    Grown dom (mount dom fixture).2 (mount dom fixture).1 := by
  cases fixture with
  | text data =>
      rw [mount]
      refine ⟨forest.create _, size_le_create _ _, fun m old => ?_,
        Nat.le_refl _, ?_, ?_⟩
      · refine node_create_of_ne dom _ fun same => ?_
        rw [same] at old
        exact Nat.lt_irrefl _ old
      · unfold parent?
        rw [node_create_self]
      · unfold isFragment kind
        rw [node_create_self]
  | element tag attributes children =>
      rw [mount]
      dsimp only
      obtain ⟨made, result⟩ : ∃ made, made = dom.create
        (.element Selector.htmlNamespace tag []) := ⟨_, rfl⟩
      have forestMade : made.2.IsForest := by
        rw [result]
        exact forest.create _
      have index : made.1.index = dom.nodes.size := by
        rw [result]
        rfl
      have size : made.2.nodes.size = dom.nodes.size + 1 := by
        rw [result]
        exact size_create dom _
      have row : made.2.node made.1 =
          ⟨.element Selector.htmlNamespace tag [], none, []⟩ := by
        rw [result]
        exact node_create_self dom _
      have untouched (m : NodeId) (old : m.index < dom.nodes.size) :
          m ≠ made.1 ∧ made.2.node m = dom.node m := by
        have differs : m ≠ made.1 := by
          rintro rfl
          rw [index] at old
          exact Nat.lt_irrefl _ old
        refine ⟨differs, ?_⟩
        rw [result] at differs ⊢
        exact node_create_of_ne dom _ differs
      rw [← result]
      obtain ⟨forestSet, sizeSet, others, above, fragment, text⟩ :=
        furnished_setAttributes forestMade made.1 attributes
      have there : made.1.index < (attributes.foldl (fun dom (name, value) =>
          dom.setAttribute made.1 name value) made.2).nodes.size := by
        omega
      -- The children are mounted into an element that stands complete.
      have furnished := furnished_mountAll forestSet there
        (by rw [text]; unfold isText kind; rw [row]) children
      refine ⟨furnished.forest, ?_, fun m old => ?_, Nat.le_of_eq index.symm,
        ?_, ?_⟩
      · exact Nat.le_trans (by omega) furnished.size
      · obtain ⟨differs, same⟩ := untouched m old
        rw [furnished.others m (by omega) differs, others m differs, same]
      · rw [furnished.above, above]
        unfold parent?
        rw [row]
      · rw [isFragment_congr furnished.kind, fragment]
        unfold isFragment kind
        rw [row]

theorem furnished_mountAll {dom : Dom} (forest : dom.IsForest)
    {parent : NodeId} (there : parent.index < dom.nodes.size)
    (notText : dom.isText parent = false) (fixtures : List Fixture) :
    Furnished dom (mountAll dom parent fixtures) parent := by
  cases fixtures with
  | nil =>
      rw [mountAll]
      exact .refl forest parent
  | cons first rest =>
      rw [mountAll]
      have built := (grown_mount forest first).furnish forest there notText
      refine built.trans (furnished_mountAll built.forest ?_ ?_ rest)
      · exact Nat.lt_of_lt_of_le there built.size
      · rw [isText_congr built.kind]
        exact notText

end

end Fixture

theorem Dom.IsForest.dissolveWithin {dom : Dom} (forest : dom.IsForest)
    (marks : Array Bool) (fuel : Nat) (tops : List NodeId) :
    (Dom.dissolveWithin marks fuel tops dom).IsForest := by
  induction fuel generalizing tops dom with
  | zero => exact forest
  | succ fuel ih =>
      cases tops with
      | nil => exact forest
      | cons n rest =>
          rw [Dom.dissolveWithin]
          split
          · exact ih forest rest
          · exact ih (forest.clearChildren n) _

theorem World.isForest_liveDom {world : World σ} (forest : world.dom.IsForest)
    (kept : List Ref) : (world.liveDom kept).IsForest := by
  unfold World.liveDom
  dsimp only
  split
  · exact forest
  · exact forest.dissolveWithin _ _ _

/-- The worlds that one arrives at, step by step, from the one in which nothing
has been made.  A node is never put into itself or into something below it.
What leaves the document alone is a step as well if it only names nodes that
have been made. -/
inductive Assembled (host : Host σ) : World σ → Prop where
  | initial (client : σ) : Assembled host (World.initial client)
  | aside {world later : World σ} :
      Assembled host world → later.dom = world.dom →
      (∀ n, later.Mentions n → n.index < world.dom.nodes.size) →
      Assembled host later
  | createNode {world : World σ} (kind : NodeKind) :
      Assembled host world → Assembled host ((createNode kind).after world)
  | modifyAttributes {world : World σ} (n : NodeId)
      (change : List Attribute → List Attribute) :
      Assembled host world → Assembled host
        ((modifyDom fun dom => dom.modifyAttributes n change).after world)
  | insertBefore {world : World σ} (parent child : NodeId)
      (reference : Option NodeId) :
      Assembled host world →
      (world.dom.isText parent = false → world.dom.Admits parent child) →
      Assembled host
        ((modifyDom fun dom =>
          dom.insertBefore parent child reference).after world)
  | removeChild {world : World σ} (parent child : NodeId) :
      Assembled host world → Assembled host
        ((modifyDom fun dom => dom.removeChild parent child).after world)
  | detach {world : World σ} (n : NodeId) :
      Assembled host world → Assembled host
        ((modifyDom fun dom => dom.detach n).after world)
  | setText {world : World σ} (n : NodeId) (data : String) :
      Assembled host world → Assembled host
        ((modifyDom fun dom => dom.setText n data).after world)
  | fixture {world : World σ} (fixture : Fixture) :
      Assembled host world → Assembled host
        ((modifyDom fun dom => (fixture.mount dom).2).after world)
  | render {world : World σ} (t : TemplateId) :
      Assembled host world → Assembled host
        ((Template.render host t).after world)
  | mount {world : World σ} (v : ViewId) :
      Assembled host world → Assembled host ((View.mount host v).after world)
  | addAt {world : World σ} (c : CollectionId) (index : Nat) (v : ViewId) :
      Assembled host world →
      (let mounted := (Collection.mounting host c v).after world
        ∀ element parent,
          (Collection.mounting host c v).result world = .ok element →
          (mounted.collection c).parent = some parent →
          mounted.dom.isText parent = false →
          mounted.dom.Admits parent element) →
      Assembled host ((Collection.addAt host c index v).after world)
  | remove {world : World σ} (c : CollectionId) (index : Nat) :
      Assembled host world →
      Assembled host ((Collection.remove c index).after world)
  | clear {world : World σ} (c : CollectionId) :
      Assembled host world → Assembled host ((Collection.clear c).after world)

namespace World.Builds

variable {world : World σ}

theorem edit {change : Dom → Dom} (builds : world.Builds [])
    (forest : (change world.dom).IsForest)
    (size : world.dom.nodes.size ≤ (change world.dom).nodes.size) :
    ((modifyDom change).after world).Builds [] := by
  exact builds.of_dom forest size fun _ member => (List.not_mem_nil member).elim

theorem stage (builds : world.Builds []) :
    world.Stage (fun _ => False) [] world.frames := by
  refine ⟨rfl, ?_, builds⟩
  intro _ impossible
  exact impossible.elim

theorem detachMember (builds : world.Builds []) (c : CollectionId)
    (v : ViewId) : ((Collection.detach c v).after world).Builds [] := by
  rw [Collection.after_detach]
  split
  · exact builds.edit (builds.forest.removeChild _ _)
      (Dom.size_le_removeChild _ _ _)
  · exact builds

theorem updateCollection (builds : world.Builds []) (c : CollectionId)
    (change : Collection → Collection) :
    ((Collection.update c change).after world).Builds [] := by
  exact builds.of_same rfl fun _ mentioned => mentioned

theorem remove (builds : world.Builds []) (c : CollectionId) (index : Nat) :
    ((Collection.remove c index).after world).Builds [] := by
  rw [Collection.after_remove]
  split
  · exact builds
  · exact (builds.updateCollection c _).detachMember c _

theorem clear (builds : world.Builds []) (c : CollectionId) :
    ((Collection.clear c).after world).Builds [] := by
  have detached (members : List ViewId) (world : World σ)
      (builds : world.Builds []) :
      ((members.forM (Collection.detach c)).after world).Builds [] := by
    induction members generalizing world with
    | nil => exact builds
    | cons v rest ih => exact ih _ (builds.detachMember c v)
  rw [Collection.after_clear]
  exact detached _ _ (builds.updateCollection c _)

theorem mount {host : Host σ} (keeps : host.KeepsForests)
    (builds : world.Builds []) (v : ViewId) :
    ((View.mount host v).after world).Builds [] := by
  exact (View.builds_mount keeps v _ [] world.frames world
    (fun _ member => (List.not_mem_nil member).elim) builds.stage).1.builds

theorem addAt {host : Host σ} (keeps : host.KeepsForests)
    (builds : world.Builds []) (c : CollectionId) (index : Nat) (v : ViewId)
    (admits : let mounted := (Collection.mounting host c v).after world
      ∀ element parent,
        (Collection.mounting host c v).result world = .ok element →
        (mounted.collection c).parent = some parent →
        mounted.dom.isText parent = false →
        mounted.dom.Admits parent element) :
    ((Collection.addAt host c index v).after world).Builds [] := by
  have mounted : ((Collection.mounting host c v).after world).Builds [] :=
    ((builds.held (.refs [.collection c, .view v] :: world.frames)).mount keeps
      v).held _
  unfold Act.after
  rw [Collection.run_addAt]
  dsimp only at admits
  generalize (Collection.mounting host c v).result world = outcome
    at admits ⊢
  generalize (Collection.mounting host c v).after world = later
    at admits mounted ⊢
  cases outcome with
  | error error => exact mounted
  | ok element =>
      have joined := mounted.updateCollection c fun collection =>
        { collection with
          members := collection.members.insertIdx
            (min index (world.collection c).members.length) v }
      dsimp only
      unfold Collection.seated
      split
      · rename_i parent found
        rw [Collection.joined, Collection.collection_update] at found
        have forest := joined.forest.insertBefore
          (admits element parent rfl found)
        exact joined.of_dom (forest _) (Dom.size_le_insertBefore _ _ _ _)
          fun _ member => (List.not_mem_nil member).elim
      · exact joined

end World.Builds

/-- What holds in every world that one arrives at. -/
theorem Assembled.builds {host : Host σ} (keeps : host.KeepsForests)
    {world : World σ} (assembled : Assembled host world) :
    world.Builds [] := by
  induction assembled with
  | initial client =>
      refine ⟨Dom.isForest_empty, fun n mentioned => ?_,
        fun _ member => (List.not_mem_nil member).elim,
        fun _ member => (List.not_mem_nil member).elim⟩
      rcases mentioned with ⟨t, member⟩ | ⟨v, element⟩
      · cases member
      · cases element
  | aside _ dom named builds =>
      refine ⟨dom ▸ builds.forest, dom ▸ named,
        fun _ member => (List.not_mem_nil member).elim,
        fun _ member => (List.not_mem_nil member).elim⟩
  | createNode kind _ builds => exact (builds.create kind).2.tail
  | modifyAttributes n change _ builds =>
      exact builds.edit (builds.forest.modifyAttributes n change)
        (Dom.size_le_modifyAttributes _ _ _)
  | insertBefore parent child reference _ admits builds =>
      exact builds.edit (builds.forest.insertBefore admits reference)
        (Dom.size_le_insertBefore _ _ _ _)
  | removeChild parent child _ builds =>
      exact builds.edit (builds.forest.removeChild parent child)
        (Dom.size_le_removeChild _ _ _)
  | detach n _ builds =>
      exact builds.edit (builds.forest.detach n) (Dom.size_le_detach _ _)
  | setText n data _ builds =>
      exact builds.edit (builds.forest.setText n data)
        (Dom.size_le_setText _ _ _)
  | fixture fixture _ builds =>
      have grown := Fixture.grown_mount builds.forest fixture
      exact builds.edit grown.forest grown.size
  | render t _ builds =>
      exact (Template.stage_renderWith keeps (View.builds_mount keeps)
        (fun _ member => (List.not_mem_nil member).elim) t
        builds.stage).1.builds
  | mount v _ builds => exact builds.mount keeps v
  | addAt c index v _ admits builds =>
      exact builds.addAt keeps c index v admits
  | remove c index _ builds => exact builds.remove c index
  | clear c _ builds => exact builds.clear c

/-- In the document of every world that one arrives at, and in what a client
sees of it, no child is listed twice, children and parents agree, fragments are
nobody's children, texts have none, and going up never leads back. -/
theorem assembled_isForest {host : Host σ} (keeps : host.KeepsForests)
    {world : World σ} (assembled : Assembled host world) (dom : Dom)
    (shown : dom = world.dom ∨ dom = host.liveDom world) :
    (∀ n, (dom.children n).Nodup) ∧
    (∀ parent n, n ∈ dom.children parent ↔ dom.parent? n = some parent) ∧
    (∀ parent, ∀ n ∈ dom.children parent, dom.isFragment n = false) ∧
    (∀ n, dom.isText n = true → dom.children n = []) ∧
    ∀ n, ¬Relation.TransGen dom.IsUnder n n := by
  have forest : dom.IsForest := by
    have built := (assembled.builds keeps).forest
    rcases shown with rfl | rfl
    · exact built
    · exact World.isForest_liveDom built _
  exact ⟨forest.tidy.nodup, forest.tidy.linked,
    fun _ _ member => forest.tidy.not_fragment member, forest.tidy.texts,
    forest.not_above_self⟩

namespace Takeover

theorem keepsForests_quiet : (Host.quiet : Host Unit).KeepsForests := by
  intro _ _ _ built world
  exact (World.Carries.steady built).refl world

/-- A division beside a paragraph with a text. -/
def division : World Unit :=
  (createNode (.element Selector.htmlNamespace "div" [])).after (.initial ())

def paragraph : Fixture :=
  .element "p" [("class", "lead")] [.text "Hello"]

/-- The paragraph has been put into the division. -/
def filled : World Unit :=
  (modifyDom fun dom => dom.insertBefore ⟨0⟩ ⟨1⟩ none).after
    ((modifyDom fun dom => (paragraph.mount dom).2).after division)

/-- A section with the paragraph for a child. -/
def around : Blueprint :=
  ⟨some "section", none, none, [], [], [.node ⟨1⟩]⟩

def templated : World Unit :=
  (Template.add around).after filled

def rendered : World Unit :=
  (Template.render Host.quiet ⟨0⟩).after templated

private theorem assembled_filled : Assembled Host.quiet filled := by
  have begun : Assembled Host.quiet division := .createNode _ (.initial ())
  refine .insertBefore _ _ _ (.fixture paragraph begun) fun _ m member => ?_
  have grown := Fixture.grown_mount (begun.builds keepsForests_quiet).forest
    paragraph
  have moved : (paragraph.mount division.dom).2.moved ⟨1⟩ = [⟨1⟩] := by
    decide +kernel
  rw [Act.after_modifyDom, moved, List.mem_singleton] at member
  rw [member]
  exact grown.inside (begun.builds keepsForests_quiet).forest.tidy
    (by decide +kernel)

theorem assembled_rendered : Assembled Host.quiet rendered := by
  refine .render ⟨0⟩ (.aside assembled_filled rfl fun n mentioned => ?_)
  rcases mentioned with ⟨t, member⟩ | ⟨v, element⟩
  · by_cases new : t.index = filled.templates.size
    · have same : t = (Template.add around).result filled := by
        cases t
        cases new
        rfl
      rw [templated, same, Template.template_add_self] at member
      cases List.mem_singleton.mp member
      decide +kernel
    · rw [templated, Template.template_add_of_ne _ _ new] at member
      cases member
  · cases element

/-- The paragraph has left the division for the new section, and the document
is a forest. -/
theorem isForest_rendered :
    Assembled Host.quiet rendered ∧
      rendered.dom.parent? ⟨1⟩ = some ⟨3⟩ ∧
      rendered.dom.children ⟨0⟩ = [] ∧
      (∀ n, (rendered.dom.children n).Nodup) ∧
      (∀ parent n, n ∈ rendered.dom.children parent ↔
        rendered.dom.parent? n = some parent) ∧
      (∀ parent, ∀ n ∈ rendered.dom.children parent,
        rendered.dom.isFragment n = false) ∧
      (∀ n, rendered.dom.isText n = true → rendered.dom.children n = []) ∧
      ∀ n, ¬Relation.TransGen rendered.dom.IsUnder n n := by
  exact ⟨assembled_rendered, by decide +kernel, by decide +kernel,
    assembled_isForest keepsForests_quiet assembled_rendered rendered.dom
      (.inl rfl)⟩

end Takeover

end LiveTemplate
