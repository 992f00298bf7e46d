import LiveTemplate.Proofs.Moving
import LiveTemplate.Proofs.Trees

/-!
# Tidy documents

Child lists and parent links are written one after the other.  A document is
tidy when the two agree, no child is listed twice, fragments are nobody's
children and texts have none.  Every edit leaves a tidy document tidy, whatever
is moved where.

A tidy document is a forest when nothing is inside its own children.  Only
putting a node somewhere can close a cycle, and that takes a new parent which
is inside the node that is put there.
-/

namespace LiveTemplate

/-- What a node is, whatever its attributes or its data. -/
def NodeKind.sort : NodeKind → NodeKind
  | .element namespaceName tag _ => .element namespaceName tag []
  | .text _ => .text ""
  | .fragment => .fragment

namespace Dom

variable {dom : Dom}

theorem mem_insertInto {child other : NodeId} {reference : Option NodeId}
    {siblings : List NodeId} :
    other ∈ insertInto child reference siblings ↔
      other = child ∨ other ∈ siblings := by
  induction siblings with
  | nil => simp [insertInto]
  | cons sibling rest ih =>
      rw [insertInto]
      split
      · exact List.mem_cons
      · rw [List.mem_cons, ih, List.mem_cons]
        exact or_left_comm

private theorem nodup_insertInto {child : NodeId} {reference : Option NodeId}
    {siblings : List NodeId} (nodup : siblings.Nodup)
    (absent : child ∉ siblings) :
    (insertInto child reference siblings).Nodup := by
  induction siblings with
  | nil => exact List.nodup_singleton child
  | cons sibling rest ih =>
      rw [insertInto]
      split
      · exact List.nodup_cons.mpr ⟨absent, nodup⟩
      · obtain ⟨distinct, nodup⟩ := List.nodup_cons.mp nodup
        rw [List.mem_cons, not_or] at absent
        refine List.nodup_cons.mpr ⟨fun member => ?_, ih nodup absent.2⟩
        rcases mem_insertInto.mp member with same | inside
        · exact absent.1 same.symm
        · exact distinct inside

theorem insertInto_before {child reference : NodeId} {front : List NodeId}
    (first : reference ∉ front) (back : List NodeId) :
    insertInto child (some reference) (front ++ reference :: back) =
      front ++ child :: reference :: back := by
  induction front with
  | nil => simp [insertInto]
  | cons sibling rest ih =>
      rw [List.mem_cons, not_or] at first
      rw [List.cons_append, insertInto,
        if_neg fun same => first.1 (Option.some.inj same).symm, ih first.2,
        List.cons_append]

section Place

variable (dom) (parent child : NodeId) (reference : Option NodeId)

theorem children_place_before (other : NodeId) :
    (dom.place parent child reference).children other =
      if other = parent then
        insertInto child reference ((dom.detach child).children parent)
      else (dom.detach child).children other := by
  unfold place
  rw [children_setParent, children_setChildren]

theorem parent?_place_before (other : NodeId) :
    (dom.place parent child reference).parent? other =
      if other = child then some parent else dom.parent? other := by
  unfold place
  rw [parent?_setParent, parent?_setChildren]
  split
  · rfl
  · rename_i differs
    exact parent?_detach_of_ne dom differs

@[simp] theorem kind_place_before (other : NodeId) :
    (dom.place parent child reference).kind other = dom.kind other := by
  simp [place]

theorem size_le_place_before :
    dom.nodes.size ≤ (dom.place parent child reference).nodes.size := by
  exact Nat.le_trans (size_le_detach dom child)
    (Nat.le_trans (size_le_modify _ _ _) (size_le_modify _ _ _))

end Place

/-- Child lists and parent links agree, and say what a document may say. -/
structure IsTidy (dom : Dom) : Prop where
  linked : dom.IsLinked
  nodup : ∀ n, (dom.children n).Nodup
  fragments : ∀ n, dom.isFragment n = true → dom.parent? n = none
  texts : ∀ n, dom.isText n = true → dom.children n = []

theorem isFragment_congr {later : Dom} {n : NodeId}
    (kind : later.kind n = dom.kind n) :
    later.isFragment n = dom.isFragment n := by
  simp only [isFragment, kind]

theorem isText_congr {later : Dom} {n : NodeId}
    (kind : later.kind n = dom.kind n) : later.isText n = dom.isText n := by
  simp only [isText, kind]

def sort (dom : Dom) (n : NodeId) : NodeKind :=
  (dom.kind n).sort

theorem sort_congr {later : Dom} {n : NodeId}
    (kind : later.kind n = dom.kind n) : later.sort n = dom.sort n := by
  simp only [sort, kind]

theorem isFragment_iff_sort {n : NodeId} :
    dom.isFragment n = true ↔ dom.sort n = .fragment := by
  unfold isFragment sort
  cases dom.kind n <;> simp [NodeKind.sort]

theorem isText_iff_sort {n : NodeId} :
    dom.isText n = true ↔ dom.sort n = .text "" := by
  unfold isText sort
  cases dom.kind n <;> simp [NodeKind.sort]

theorem isFragment_of_sort {later : Dom} {n : NodeId}
    (same : later.sort n = dom.sort n) :
    later.isFragment n = dom.isFragment n := by
  rw [Bool.eq_iff_iff, isFragment_iff_sort, isFragment_iff_sort, same]

theorem isText_of_sort {later : Dom} {n : NodeId}
    (same : later.sort n = dom.sort n) : later.isText n = dom.isText n := by
  rw [Bool.eq_iff_iff, isText_iff_sort, isText_iff_sort, same]

namespace IsTidy

/-- Tidiness is about children, parents and which nodes are texts and
fragments. -/
theorem of_rows {later : Dom} (tidy : dom.IsTidy)
    (children : ∀ n, later.children n = dom.children n)
    (parents : ∀ n, later.parent? n = dom.parent? n)
    (fragments : ∀ n, later.isFragment n = dom.isFragment n)
    (texts : ∀ n, later.isText n = dom.isText n) : later.IsTidy where
  linked parent child := by
    rw [children, parents]
    exact tidy.linked parent child
  nodup n := by
    rw [children]
    exact tidy.nodup n
  fragments n fragment := by
    rw [parents]
    exact tidy.fragments n (fragments n ▸ fragment)
  texts n text := by
    rw [children]
    exact tidy.texts n (texts n ▸ text)

theorem not_fragment (tidy : dom.IsTidy) {parent child : NodeId}
    (member : child ∈ dom.children parent) : dom.isFragment child = false := by
  rw [Bool.eq_false_iff]
  intro fragment
  have alone := tidy.fragments child fragment
  rw [(tidy.linked parent child).mp member] at alone
  cases alone

theorem indexInParent?_eq (tidy : dom.IsTidy) {parent n : NodeId}
    {front back : List NodeId}
    (row : dom.children parent = front ++ n :: back) :
    dom.indexInParent? n = some front.length := by
  have member : n ∈ dom.children parent := by simp [row]
  have nodup := tidy.nodup parent
  rw [indexInParent?, (tidy.linked parent n).mp member, Option.bind_some]
  rw [row] at nodup ⊢
  rw [List.idxOf?_eq_some_iff]
  refine ⟨by simp, by simp, fun place before same => ?_⟩
  rw [List.getElem_append_left before] at same
  exact (List.nodup_append.mp nodup).2.2 n (same ▸ List.getElem_mem before) n
    (.head _) rfl

/-- Taking a node out of its parent takes it out of every list. -/
theorem children_detach (tidy : dom.IsTidy) (child n : NodeId) :
    (dom.detach child).children n =
      (dom.children n).filter (· ≠ child) := by
  rw [Dom.children_detach]
  split
  · rfl
  · rename_i elsewhere
    refine (List.filter_eq_self.mpr fun sibling member => ?_).symm
    refine decide_eq_true fun same => elsewhere ?_
    exact (tidy.linked n child).mp (same ▸ member)

theorem parent?_detach (tidy : dom.IsTidy) (child n : NodeId) :
    (dom.detach child).parent? n =
      if n = child then none else dom.parent? n := by
  split
  · rename_i same
    subst same
    unfold detach
    cases found : dom.parent? n with
    | none => exact found
    | some parent =>
        dsimp only
        rw [removeChild, if_pos ((tidy.linked parent n).mpr found),
          parent?_setParent, if_pos rfl]
  · rename_i differs
    exact parent?_detach_of_ne dom differs

theorem detach (tidy : dom.IsTidy) (child : NodeId) :
    (dom.detach child).IsTidy where
  linked parent n := by
    rw [tidy.children_detach, tidy.parent?_detach, List.mem_filter,
      tidy.linked parent n]
    by_cases same : n = child <;> simp [same]
  nodup n := by
    rw [tidy.children_detach]
    exact (tidy.nodup n).filter _
  fragments n fragment := by
    rw [isFragment_congr (kind_detach dom child n)] at fragment
    rw [tidy.parent?_detach, tidy.fragments n fragment, ite_self]
  texts n text := by
    rw [isText_congr (kind_detach dom child n)] at text
    rw [tidy.children_detach, tidy.texts n text, List.filter_nil]

/-- A child that is taken out is detached; others stay. -/
theorem removeChild_eq (tidy : dom.IsTidy) (parent child : NodeId) :
    dom.removeChild parent child =
      if dom.parent? child = some parent then dom.detach child else dom := by
  split
  · rename_i found
    rw [Dom.detach, found]
  · rename_i elsewhere
    rw [Dom.removeChild, if_neg fun member =>
      elsewhere ((tidy.linked parent child).mp member)]

/-- A child that is taken out leaves its siblings in their order. -/
theorem children_removeChild (tidy : dom.IsTidy) {parent child : NodeId}
    {front back : List NodeId}
    (children : dom.children parent = front ++ child :: back) :
    (dom.removeChild parent child).children parent = front ++ back := by
  have member : child ∈ dom.children parent := by simp [children]
  have nodup := tidy.nodup parent
  rw [children, List.nodup_append, List.nodup_cons] at nodup
  obtain ⟨_, ⟨behind, _⟩, apart⟩ := nodup
  have kept {siblings : List NodeId} (absent : child ∉ siblings) :
      siblings.filter (· ≠ child) = siblings :=
    List.filter_eq_self.mpr fun sibling inside => decide_eq_true
      fun same => absent (same ▸ inside)
  rw [tidy.removeChild_eq, if_pos ((tidy.linked parent child).mp member),
    tidy.children_detach, children, List.filter_append, List.filter_cons,
    if_neg (by simp), kept behind,
    kept fun inside => apart child inside child (.head _) rfl]

theorem removeChild (tidy : dom.IsTidy) (parent child : NodeId) :
    (dom.removeChild parent child).IsTidy := by
  rw [tidy.removeChild_eq]
  split
  · exact tidy.detach child
  · exact tidy

theorem place (tidy : dom.IsTidy) {parent child : NodeId}
    (notText : dom.isText parent = false)
    (notFragment : dom.isFragment child = false)
    (reference : Option NodeId) :
    (dom.place parent child reference).IsTidy := by
  have before := tidy.detach child
  have absent : child ∉ (dom.detach child).children parent := by
    simp [tidy.children_detach]
  refine ⟨fun other n => ?_, fun n => ?_, fun n fragment => ?_,
    fun n text => ?_⟩
  · rw [children_place_before, parent?_place_before]
    by_cases same : n = child
    · subst same
      rw [if_pos rfl]
      by_cases here : other = parent
      · simp [here, mem_insertInto]
      · simp [here, tidy.children_detach, Ne.symm here]
    · rw [if_neg same]
      have kept : n ∈ (dom.detach child).children other ↔
          dom.parent? n = some other := by
        rw [before.linked other n, parent?_detach_of_ne dom same]
      by_cases here : other = parent
      · subst here
        simp [mem_insertInto, same, kept]
      · simp [here, kept]
  · rw [children_place_before]
    split
    · exact nodup_insertInto (before.nodup parent) absent
    · exact before.nodup n
  · rw [isFragment_congr (kind_place_before dom parent child reference n)]
      at fragment
    rw [parent?_place_before, if_neg, tidy.fragments n fragment]
    rintro rfl
    rw [fragment] at notFragment
    cases notFragment
  · rw [isText_congr (kind_place_before dom parent child reference n)] at text
    rw [children_place_before, if_neg, tidy.children_detach,
      tidy.texts n text, List.filter_nil]
    rintro rfl
    rw [text] at notText
    cases notText

theorem clearChildren (tidy : dom.IsTidy) (n : NodeId) :
    (dom.clearChildren n).IsTidy where
  linked parent child := by
    rw [children_clearChildren, parent?_clearChildren]
    by_cases inside : child ∈ dom.children n
    · have found := (tidy.linked n child).mp inside
      by_cases same : parent = n
      · simp [same, inside]
      · simp [same, inside, tidy.linked parent child, found, Ne.symm same]
    · by_cases same : parent = n
      · subst same
        simp [inside, ← tidy.linked parent child]
      · simp [same, inside, tidy.linked parent child]
  nodup other := by
    rw [children_clearChildren]
    split
    · exact List.nodup_nil
    · exact tidy.nodup other
  fragments other fragment := by
    rw [isFragment_congr (kind_clearChildren dom n other)] at fragment
    rw [parent?_clearChildren, tidy.fragments other fragment, ite_self]
  texts other text := by
    rw [isText_congr (kind_clearChildren dom n other)] at text
    rw [children_clearChildren, tidy.texts other text, ite_self]

theorem placeEach (tidy : dom.IsTidy) {parent : NodeId}
    (notText : dom.isText parent = false) (reference : Option NodeId)
    (nodes : List NodeId)
    (notFragments : ∀ n ∈ nodes, dom.isFragment n = false) :
    (nodes.foldl (fun dom moved => dom.place parent moved reference)
      dom).IsTidy := by
  induction nodes generalizing dom with
  | nil => exact tidy
  | cons first rest ih =>
      have kinds (n : NodeId) := kind_place_before dom parent first reference n
      refine ih (tidy.place notText (notFragments first (.head _)) reference)
        ?_ fun n member => ?_
      · rw [isText_congr (kinds parent)]
        exact notText
      · rw [isFragment_congr (kinds n)]
        exact notFragments n (.tail _ member)

theorem insertBefore (tidy : dom.IsTidy) (parent child : NodeId)
    (reference : Option NodeId) :
    (dom.insertBefore parent child reference).IsTidy := by
  unfold Dom.insertBefore
  split
  · exact tidy
  rename_i notText
  rw [Bool.not_eq_true] at notText
  split
  · refine (tidy.clearChildren child).placeEach ?_ reference _
      fun n member => ?_
    · rw [isText_congr (kind_clearChildren dom child parent)]
      exact notText
    · rw [isFragment_congr (kind_clearChildren dom child n)]
      exact tidy.not_fragment member
  · rename_i notFragment
    rw [Bool.not_eq_true] at notFragment
    exact tidy.place notText notFragment reference

end IsTidy

theorem isTidy_empty : empty.IsTidy where
  linked _ _ := ⟨fun member => (List.not_mem_nil member).elim,
    fun found => by cases found⟩
  nodup _ := List.nodup_nil
  fragments _ _ := rfl
  texts n text := rfl

section Create

variable (dom) (made : NodeKind)

theorem node_next : dom.node (dom.create made).1 = default := by
  unfold node create
  exact dom.nodes.get_size

theorem children_create (n : NodeId) :
    (dom.create made).2.children n = dom.children n := by
  by_cases same : n = (dom.create made).1
  · subst same
    unfold children
    rw [node_create_self, node_next]
    rfl
  · unfold children
    rw [node_create_of_ne dom made same]

theorem parent?_create (n : NodeId) :
    (dom.create made).2.parent? n = dom.parent? n := by
  by_cases same : n = (dom.create made).1
  · subst same
    unfold parent?
    rw [node_create_self, node_next]
    rfl
  · unfold parent?
    rw [node_create_of_ne dom made same]

theorem kind_create_of_ne {n : NodeId} (differs : n ≠ (dom.create made).1) :
    (dom.create made).2.kind n = dom.kind n := by
  unfold kind
  rw [node_create_of_ne dom made differs]

theorem children_next : dom.children (dom.create made).1 = [] := by
  unfold children
  rw [node_next]
  rfl

theorem parent?_next : dom.parent? (dom.create made).1 = none := by
  unfold parent?
  rw [node_next]
  rfl

end Create

theorem IsTidy.create (tidy : dom.IsTidy) (made : NodeKind) :
    (dom.create made).2.IsTidy where
  linked parent child := by
    rw [children_create, parent?_create]
    exact tidy.linked parent child
  nodup n := by
    rw [children_create]
    exact tidy.nodup n
  fragments n fragment := by
    rw [parent?_create]
    by_cases same : n = (dom.create made).1
    · rw [same, parent?_next]
    · rw [isFragment_congr (kind_create_of_ne dom made same)] at fragment
      exact tidy.fragments n fragment
  texts n text := by
    rw [children_create]
    by_cases same : n = (dom.create made).1
    · rw [same, children_next]
    · rw [isText_congr (kind_create_of_ne dom made same)] at text
      exact tidy.texts n text

theorem sort_modifyAttributes (dom : Dom) (n other : NodeId)
    (change : List Attribute → List Attribute) :
    (dom.modifyAttributes n change).sort other = dom.sort other := by
  cases kind : dom.kind n with
  | element namespaceName tag attributes =>
      rw [modifyAttributes_element kind]
      by_cases same : other = n
      · subst same
        simp [sort, NodeKind.sort, kind]
      · exact sort_congr (kind_setKind_of_ne dom _ same)
  | text data => simp [modifyAttributes, kind]
  | fragment => simp [modifyAttributes, kind]

theorem isFragment_modifyAttributes (dom : Dom) (n other : NodeId)
    (change : List Attribute → List Attribute) :
    (dom.modifyAttributes n change).isFragment other = dom.isFragment
      other := by
  exact isFragment_of_sort (sort_modifyAttributes dom n other change)

theorem isText_modifyAttributes (dom : Dom) (n other : NodeId)
    (change : List Attribute → List Attribute) :
    (dom.modifyAttributes n change).isText other = dom.isText other := by
  exact isText_of_sort (sort_modifyAttributes dom n other change)

theorem IsTidy.modifyAttributes (tidy : dom.IsTidy) (n : NodeId)
    (change : List Attribute → List Attribute) :
    (dom.modifyAttributes n change).IsTidy := by
  exact tidy.of_rows (children_modifyAttributes dom n · change)
    (parent?_modifyAttributes dom n · change)
    (isFragment_modifyAttributes dom n · change)
    (isText_modifyAttributes dom n · change)

theorem setText_text {n : NodeId} (text : dom.isText n = true)
    (data : String) : dom.setText n data = dom.setKind n (.text data) := by
  obtain ⟨old, kind⟩ := isText_iff.mp text
  simp only [setText, kind]

theorem setText_other {n : NodeId} (other : dom.isText n = false)
    (data : String) :
    dom.setText n data =
      if data.isEmpty then dom.clearChildren n
      else ((dom.clearChildren n).create (.text data)).2.appendChild n
        ((dom.clearChildren n).create (.text data)).1 := by
  unfold isText at other
  unfold setText
  cases kind : dom.kind n with
  | text old => simp [kind] at other
  | element _ _ _ => rfl
  | fragment => rfl

theorem sort_setData {n : NodeId} (text : dom.isText n = true)
    (data : String) (other : NodeId) :
    (dom.setKind n (.text data)).sort other = dom.sort other := by
  by_cases same : other = n
  · subst same
    obtain ⟨old, kind⟩ := isText_iff.mp text
    simp [sort, NodeKind.sort, kind]
  · exact sort_congr (kind_setKind_of_ne dom _ same)

theorem IsTidy.setText (tidy : dom.IsTidy) (n : NodeId) (data : String) :
    (dom.setText n data).IsTidy := by
  cases text : dom.isText n with
  | true =>
      rw [setText_text text]
      exact tidy.of_rows (children_setKind dom n · _)
        (parent?_setKind dom n · _)
        (fun other => isFragment_of_sort (sort_setData text data other))
        fun other => isText_of_sort (sort_setData text data other)
  | false =>
      rw [setText_other text]
      split
      · exact tidy.clearChildren n
      · exact ((tidy.clearChildren n).create _).insertBefore _ _ _

/-! ## What edits leave alone -/

theorem kind_placeEach (parent : NodeId) (reference : Option NodeId)
    (nodes : List NodeId) (dom : Dom) (n : NodeId) :
    (nodes.foldl (fun dom moved => dom.place parent moved reference)
      dom).kind n = dom.kind n := by
  induction nodes generalizing dom with
  | nil => rfl
  | cons first rest ih =>
      rw [List.foldl_cons, ih, kind_place_before]

theorem kind_insertBefore (dom : Dom) (parent child : NodeId)
    (reference : Option NodeId) (n : NodeId) :
    (dom.insertBefore parent child reference).kind n = dom.kind n := by
  unfold insertBefore
  split
  · rfl
  split
  · rw [kind_placeEach, kind_clearChildren]
  · exact kind_place_before dom parent child reference n

theorem kind_removeChild (dom : Dom) (parent child n : NodeId) :
    (dom.removeChild parent child).kind n = dom.kind n := by
  unfold removeChild
  split
  · rw [kind_setParent, kind_setChildren]
  · rfl

namespace IsTidy

theorem lt_size_of_mem (tidy : dom.IsTidy) {parent child : NodeId}
    (member : child ∈ dom.children parent) :
    child.index < dom.nodes.size := by
  by_contra beyond
  have missing : dom.nodes.rows[child.index]? = none :=
    Array.getElem?_eq_none (Nat.le_of_not_lt beyond)
  have found := (tidy.linked parent child).mp member
  simp only [parent?, node, Store.get, missing, Option.getD_none] at found
  cases found

theorem children_placeEach_of_ne (tidy : dom.IsTidy) {parent : NodeId}
    (notText : dom.isText parent = false) (reference : Option NodeId)
    {nodes : List NodeId}
    (notFragments : ∀ n ∈ nodes, dom.isFragment n = false) {other : NodeId}
    (differs : other ≠ parent) (absent : ∀ n ∈ nodes, n ∉ dom.children other) :
    (nodes.foldl (fun dom moved => dom.place parent moved reference)
      dom).children other = dom.children other := by
  induction nodes generalizing dom with
  | nil => rfl
  | cons first rest ih =>
      have kinds (n : NodeId) := kind_place_before dom parent first reference n
      have kept : (dom.place parent first reference).children other =
          dom.children other := by
        rw [children_place_before, if_neg differs, tidy.children_detach]
        refine List.filter_eq_self.mpr fun sibling member => ?_
        exact decide_eq_true fun same => absent first (.head _) (same ▸ member)
      rw [List.foldl_cons, ih, kept]
      · exact tidy.place notText (notFragments first (.head _)) reference
      · rw [isText_congr (kinds parent)]
        exact notText
      · intro n member
        rw [isFragment_congr (kinds n)]
        exact notFragments n (.tail _ member)
      · intro n member
        rw [kept]
        exact absent n (.tail _ member)

/-- A node keeps its children unless it gets or loses the one that is put
somewhere. -/
theorem children_insertBefore_of_ne (tidy : dom.IsTidy)
    {parent child other : NodeId} (reference : Option NodeId)
    (differs : other ≠ parent)
    (self : dom.isFragment child = true → other ≠ child)
    (absent : child ∉ dom.children other) :
    (dom.insertBefore parent child reference).children other =
      dom.children other := by
  unfold Dom.insertBefore
  split
  · rfl
  rename_i notText
  rw [Bool.not_eq_true] at notText
  split
  · rename_i fragment
    have cleared : (dom.clearChildren child).children other =
        dom.children other := by
      rw [children_clearChildren, if_neg (self fragment)]
    have notText' : (dom.clearChildren child).isText parent = false := by
      rw [isText_congr (kind_clearChildren dom child parent)]
      exact notText
    refine ((tidy.clearChildren child).children_placeEach_of_ne notText'
      reference (fun n member => ?_) differs fun n member inside => ?_).trans
        cleared
    · rw [isFragment_congr (kind_clearChildren dom child n)]
      exact tidy.not_fragment member
    · rw [cleared] at inside
      have there := (tidy.linked child n).mp member
      rw [(tidy.linked other n).mp inside] at there
      exact self fragment (Option.some.inj there)
  · rename_i notFragment
    rw [Bool.not_eq_true] at notFragment
    have single : ∀ n ∈ [child], dom.isFragment n = false := fun n member =>
      List.mem_singleton.mp member ▸ notFragment
    exact tidy.children_placeEach_of_ne notText reference single differs
      fun n member => List.mem_singleton.mp member ▸ absent

theorem children_setText_of_ne (tidy : dom.IsTidy) {n other : NodeId}
    (differs : other ≠ n) (data : String) :
    (dom.setText n data).children other = dom.children other := by
  cases text : dom.isText n with
  | true => rw [setText_text text, children_setKind]
  | false =>
      have cleared : (dom.clearChildren n).children other =
          dom.children other := by
        rw [children_clearChildren, if_neg differs]
      rw [setText_other text]
      split
      · exact cleared
      · refine (((tidy.clearChildren n).create _).children_insertBefore_of_ne
          none differs ?_ ?_).trans ((children_create _ _ _).trans cleared)
        · intro fragment
          simp [isFragment, kind, node_create_self] at fragment
        · intro member
          rw [children_create] at member
          have found := ((tidy.clearChildren n).linked _ _).mp member
          rw [parent?_next] at found
          cases found

end IsTidy

theorem sort_setText (dom : Dom) (n : NodeId) (data : String) {other : NodeId}
    (old : other.index < dom.nodes.size) :
    (dom.setText n data).sort other = dom.sort other := by
  cases text : dom.isText n with
  | true =>
      rw [setText_text text]
      exact sort_setData text data other
  | false =>
      refine sort_congr ?_
      rw [setText_other text]
      split
      · exact kind_clearChildren dom n other
      · refine (kind_insertBefore _ _ _ _ other).trans ?_
        rw [kind_create_of_ne, kind_clearChildren]
        rintro rfl
        exact absurd old (Nat.not_lt.mpr (dom.size_le_clearChildren n))

/-- A tidy document in which nothing is inside its own children. -/
structure IsForest (dom : Dom) : Prop where
  tidy : dom.IsTidy
  acyclic : ∀ n, ∀ child ∈ dom.children n, ¬dom.Inside child n

/-- Nothing comes to be inside itself when a node is put somewhere. -/
def Admits (dom : Dom) (parent child : NodeId) : Prop :=
  ∀ n ∈ dom.moved child, ¬dom.Inside n parent

theorem Inside.mono {later : Dom}
    (subset : ∀ n, later.children n ⊆ dom.children n) {outer inner : NodeId}
    (inside : later.Inside outer inner) : dom.Inside outer inner := by
  induction inside with
  | here n => exact .here n
  | under member _ ih => exact .under (subset _ member) ih

/-- When some nodes come under a parent, a node is inside another if it was or
if it is inside one of them and the other is above the parent. -/
theorem Inside.graft {later : Dom} {parent : NodeId} {moved : List NodeId}
    (children : ∀ n, ∀ child ∈ later.children n,
      child ∈ dom.children n ∨ n = parent ∧ child ∈ moved)
    {outer inner : NodeId} (inside : later.Inside outer inner) :
    dom.Inside outer inner ∨
      dom.Inside outer parent ∧ ∃ n ∈ moved, dom.Inside n inner := by
  induction inside with
  | here n => exact .inl (.here n)
  | @under n child inner member _ ih =>
      rcases children n child member with old | ⟨rfl, new⟩
      · rcases ih with inside | ⟨above, below⟩
        · exact .inl (.under old inside)
        · exact .inr ⟨.under old above, below⟩
      · rcases ih with inside | ⟨_, below⟩
        · exact .inr ⟨.here n, child, new, inside⟩
        · exact .inr ⟨.here n, below⟩

namespace IsForest

/-- A document stays a forest when nodes only leave their parents. -/
theorem mono {later : Dom} (forest : dom.IsForest) (tidy : later.IsTidy)
    (subset : ∀ n, later.children n ⊆ dom.children n) : later.IsForest where
  tidy := tidy
  acyclic n child member inside :=
    forest.acyclic n child (subset n member) (inside.mono subset)

theorem graft {later : Dom} (forest : dom.IsForest) (tidy : later.IsTidy)
    {parent : NodeId} {moved : List NodeId}
    (children : ∀ n, ∀ child ∈ later.children n,
      child ∈ dom.children n ∨ n = parent ∧ child ∈ moved)
    (outside : ∀ n ∈ moved, ¬dom.Inside n parent) : later.IsForest where
  tidy := tidy
  acyclic n child member inside := by
    rcases children n child member with old | ⟨rfl, new⟩
    · rcases inside.graft children with before | ⟨above, m, new, below⟩
      · exact forest.acyclic n child old before
      · exact outside m new (below.trans (.under old above))
    · rcases inside.graft children with before | ⟨_, m, other, below⟩
      · exact outside child new before
      · exact outside m other below

theorem detach (forest : dom.IsForest) (n : NodeId) :
    (dom.detach n).IsForest := by
  refine forest.mono (forest.tidy.detach n) fun other => ?_
  rw [forest.tidy.children_detach]
  exact List.filter_sublist.subset

theorem removeChild (forest : dom.IsForest) (parent child : NodeId) :
    (dom.removeChild parent child).IsForest := by
  rw [forest.tidy.removeChild_eq]
  split
  · exact forest.detach child
  · exact forest

theorem clearChildren (forest : dom.IsForest) (n : NodeId) :
    (dom.clearChildren n).IsForest := by
  refine forest.mono (forest.tidy.clearChildren n) fun other => ?_
  rw [children_clearChildren]
  split
  · exact List.nil_subset _
  · exact List.Subset.refl _

theorem create (forest : dom.IsForest) (made : NodeKind) :
    (dom.create made).2.IsForest := by
  refine forest.mono (forest.tidy.create made) fun other => ?_
  rw [children_create]
  exact List.Subset.refl _

theorem modifyAttributes (forest : dom.IsForest) (n : NodeId)
    (change : List Attribute → List Attribute) :
    (dom.modifyAttributes n change).IsForest := by
  refine forest.mono (forest.tidy.modifyAttributes n change) fun other => ?_
  rw [children_modifyAttributes]
  exact List.Subset.refl _

end IsForest

theorem children_placeEach_subset (parent : NodeId)
    (reference : Option NodeId) (nodes : List NodeId) (dom : Dom) (n : NodeId) :
    ∀ child ∈ (nodes.foldl (fun dom moved => dom.place parent moved reference)
      dom).children n,
      child ∈ dom.children n ∨ n = parent ∧ child ∈ nodes := by
  induction nodes generalizing dom with
  | nil => exact fun child member => .inl member
  | cons first rest ih =>
      intro child member
      rcases ih (dom.place parent first reference) child member with
        before | ⟨here, later⟩
      · have detached : (dom.detach first).children n ⊆ dom.children n := by
          rw [Dom.children_detach]
          split
          · exact List.filter_sublist.subset
          · exact List.Subset.refl _
        rw [children_place_before] at before
        split at before
        · rename_i same
          subst same
          rcases mem_insertInto.mp before with rfl | old
          · exact .inr ⟨rfl, .head _⟩
          · exact .inl (detached old)
        · exact .inl (detached before)
      · exact .inr ⟨here, .tail _ later⟩

theorem children_insertBefore_subset (dom : Dom) (parent child : NodeId)
    (reference : Option NodeId) (n : NodeId) :
    ∀ m ∈ (dom.insertBefore parent child reference).children n,
      m ∈ dom.children n ∨ n = parent ∧ m ∈ dom.moved child := by
  intro m member
  unfold insertBefore at member
  split at member
  · exact .inl member
  split at member
  · rename_i fragment
    rcases children_placeEach_subset parent reference _ _ n m member with
      before | ⟨here, kid⟩
    · rw [children_clearChildren] at before
      split at before
      · cases before
      · exact .inl before
    · rw [moved, if_pos fragment]
      exact .inr ⟨here, kid⟩
  · rename_i notFragment
    rw [moved, if_neg notFragment]
    exact children_placeEach_subset parent reference [child] dom n m member

theorem IsForest.insertBefore (forest : dom.IsForest) {parent child : NodeId}
    (admits : dom.isText parent = false → dom.Admits parent child)
    (reference : Option NodeId) :
    (dom.insertBefore parent child reference).IsForest := by
  cases text : dom.isText parent with
  | true =>
      rw [Dom.insertBefore, if_pos text]
      exact forest
  | false =>
      exact forest.graft (forest.tidy.insertBefore parent child reference)
        (dom.children_insertBefore_subset parent child reference) (admits text)

theorem Inside.eq_of_childless {n inner : NodeId}
    (childless : dom.children n = []) (inside : dom.Inside n inner) :
    inner = n := by
  cases inside with
  | here => rfl
  | under member =>
      rw [childless] at member
      cases member

/-- A node that stands alone may be put into any other. -/
theorem admits_of_childless {parent child : NodeId}
    (childless : dom.children child = []) (differs : child ≠ parent) :
    dom.Admits parent child := by
  intro n member inside
  unfold moved at member
  split at member
  · rw [childless] at member
    cases member
  · rw [List.mem_singleton.mp member] at inside
    exact differs (inside.eq_of_childless childless).symm

private theorem lt_size_clearChildren (dom : Dom) (n : NodeId) :
    n.index < (dom.clearChildren n).nodes.size := by
  have written : n.index < (dom.setChildren n []).nodes.size := by
    unfold setChildren modify Store.modify Store.put
    split
    · rename_i within
      simpa [Store.size] using within
    · rename_i beyond
      simp only [Store.size] at beyond ⊢
      simp
      omega
  exact Nat.lt_of_lt_of_le written (setParents_rows none _ _ n).2.2.2

theorem IsForest.setText (forest : dom.IsForest) (n : NodeId)
    (data : String) : (dom.setText n data).IsForest := by
  cases text : dom.isText n with
  | true =>
      refine forest.mono (forest.tidy.setText n data) fun other => ?_
      rw [setText_text text, children_setKind]
      exact List.Subset.refl _
  | false =>
      rw [setText_other text]
      have cleared := forest.clearChildren n
      split
      · exact cleared
      · refine (cleared.create _).insertBefore (fun _ => ?_) none
        refine admits_of_childless ?_ fun same => ?_
        · rw [children_create, children_next]
        · have there := dom.lt_size_clearChildren n
          have next := congrArg NodeId.index same
          exact absurd there (Nat.not_lt.mpr (Nat.le_of_eq next))

theorem isForest_empty : empty.IsForest where
  tidy := isTidy_empty
  acyclic _ _ member := (List.not_mem_nil member).elim

/-- The second node is the parent of the first. -/
def IsUnder (dom : Dom) (child parent : NodeId) : Prop :=
  dom.parent? child = some parent

private theorem inside_of_above (linked : dom.IsLinked) {inner outer : NodeId}
    (above : Relation.TransGen dom.IsUnder inner outer) :
    ∃ child ∈ dom.children outer, dom.Inside child inner := by
  induction above with
  | single found => exact ⟨_, (linked _ _).mpr found, .here _⟩
  | tail _ found ih =>
      obtain ⟨child, member, inside⟩ := ih
      exact ⟨_, (linked _ _).mpr found, .under member inside⟩

/-- Going up never leads back. -/
theorem IsForest.not_above_self (forest : dom.IsForest) (n : NodeId) :
    ¬Relation.TransGen dom.IsUnder n n := by
  intro above
  obtain ⟨child, member, inside⟩ := inside_of_above forest.tidy.linked above
  exact forest.acyclic n child member inside

end Dom

end LiveTemplate
