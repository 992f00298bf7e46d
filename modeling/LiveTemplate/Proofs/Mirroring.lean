import LiveTemplate.Proofs.Composition
import LiveTemplate.Proofs.Freshness
import LiveTemplate.Proofs.Twins

/-!
# What the library does in twin worlds

Rendering evaluates schemas, writes to nodes, listens and mounts, for one
template after the other, and none of it looks at more than what twin worlds
have in common.  Hence templates that are alike are rendered to the same trees,
with the same subscriptions, or fail for the same reason.
-/

namespace LiveTemplate

variable {σ τ α β : Type}

/-- The code of two clients does the same in twin worlds. -/
structure Host.Mirrors (kin : Kinship σ τ) (host : Host σ) (twin : Host τ) :
    Prop where
  transform : ∀ handler value node,
    (host.transform handler value node).Mirrors kin
      (twin.transform handler value node)
  notice : ∀ handler notice,
    (host.notice handler notice).Mirrors kin (twin.notice handler notice)

namespace Host.Mirrors

variable {kin : Kinship σ τ} {host : Host σ} {twin : Host τ}

theorem binding (mirrors : host.Mirrors kin twin) (node : NodeId)
    (binding : Binding) :
    (binding.evaluate host node).Mirrors kin (binding.evaluate twin node) := by
  unfold Binding.evaluate
  refine .get fun one other twins => ?_
  rw [twins.property]
  cases binding.transform with
  | none => exact .bind (.pure _) fun _ => .pure _
  | some handler =>
      exact .bind (mirrors.transform handler _ node) fun _ => .pure _

mutual

theorem chunk (mirrors : host.Mirrors kin twin) (node : NodeId)
    (chunk : Chunk) :
    (chunk.evaluate host node).Mirrors kin (chunk.evaluate twin node) := by
  cases chunk with
  | fixed value =>
      rw [Chunk.evaluate, Chunk.evaluate]
      exact .pure value
  | bound binding =>
      rw [Chunk.evaluate, Chunk.evaluate]
      exact mirrors.binding node binding
  | namespaced namespaceName chunks =>
      rw [Chunk.evaluate, Chunk.evaluate]
      cases loneChoice? chunks with
      | none => exact joinChunks mirrors node chunks _
      | some binding => exact mirrors.binding node binding
  | styles properties =>
      rw [Chunk.evaluate, Chunk.evaluate]
      exact .pure _

theorem joinChunks (mirrors : host.Mirrors kin twin) (node : NodeId)
    (chunks : List Chunk) (value : Value) :
    (LiveTemplate.joinChunks host node chunks value).Mirrors kin
      (LiveTemplate.joinChunks twin node chunks value) := by
  cases chunks with
  | nil =>
      rw [LiveTemplate.joinChunks, LiveTemplate.joinChunks]
      exact .pure value
  | cons first rest =>
      rw [LiveTemplate.joinChunks, LiveTemplate.joinChunks]
      exact .bind (chunk mirrors node first) fun _ =>
        joinChunks mirrors node rest _

end

variable (mirrors : host.Mirrors kin twin)

include mirrors

theorem evaluate (node : NodeId) (chunks : List Chunk) :
    (LiveTemplate.evaluate host node chunks).Mirrors kin
      (LiveTemplate.evaluate twin node chunks) := by
  unfold LiveTemplate.evaluate
  cases loneChoice? chunks with
  | none => exact mirrors.joinChunks node chunks _
  | some binding => exact mirrors.binding node binding

theorem sync (group : SyncGroup) :
    (group.sync host).Mirrors kin (group.sync twin) := by
  refine .bind (mirrors.evaluate _ _) fun _ => ?_
  exact (Act.IsShared.modifyDom _).mirrors (.modifyDom _)

theorem bind (group : SyncGroup) :
    (group.bind host).Mirrors kin (group.bind twin) := by
  refine .bind (mirrors.sync group) fun _ => ?_
  refine .mapM fun _ => ?_
  exact (Act.IsShared.listenToObservable _ _ _ _).mirrors
    (.listenToObservable _ _ _ _)

theorem renderSlot (slot : Slot) (chunks : List Chunk) :
    (Blueprint.renderSlot host slot chunks).Mirrors kin
      (Blueprint.renderSlot twin slot chunks) := by
  unfold Blueprint.renderSlot
  split
  · exact .bind (.act (mirrors.bind _)) fun _ => .note _
  · refine .bind (.act (mirrors.evaluate _ _)) fun value => ?_
    split
    · exact .shared (.modifyDom _) (.modifyDom _)
    · exact .pure ()

theorem plainText (node : NodeId) (chunks : List Chunk) :
    (Blueprint.plainText host node chunks).Mirrors kin
      (Blueprint.plainText twin node chunks) := by
  exact .bind (.mapM fun chunk => mirrors.chunk node chunk) fun _ => .pure _

theorem showText (node : NodeId) (chunks : List Chunk) :
    (Blueprint.showText host node chunks).Mirrors kin
      (Blueprint.showText twin node chunks) := by
  refine .bind (.keeping ?_) fun _ => .pure node
  split
  · exact .bind (.act (mirrors.bind _)) fun _ => .note _
  · exact .bind (.act (mirrors.plainText node chunks)) fun _ =>
      .shared (.modifyDom _) (.modifyDom _)

theorem renderText {one other : Blueprint} (alike : one.Alike other)
    (target : Option NodeId) :
    (one.renderText host target).Mirrors kin
      (other.renderText twin target) := by
  have shown (node : NodeId) :=
    mirrors.showText node (flattenChunks (other.text.getD []))
  unfold Blueprint.renderText
  rw [alike.text]
  cases target with
  | none =>
      exact .bind (.shared (.createNode _) (.createNode _)) shown
  | some node =>
      refine .get fun one other twins => ?_
      rw [twins.dom]
      exact .bind (.note _) fun _ => .bind (.pure node) shown

theorem renderStyles (node : NodeId) (styles : StyleMap) :
    (Blueprint.renderStyles host node styles).Mirrors kin
      (Blueprint.renderStyles twin node styles) := by
  exact .forM fun _ => mirrors.renderSlot _ _

theorem renderAttribute (node : NodeId) (applying : Bool) (name : String)
    (schema : Schema) :
    (Blueprint.renderAttribute host node applying name schema).Mirrors kin
      (Blueprint.renderAttribute twin node applying name schema) := by
  unfold Blueprint.renderAttribute
  refine .get fun one other twins => ?_
  rw [twins.dom]
  cases applying with
  | true => exact .bind (.note _) fun _ => mirrors.renderSlot _ _
  | false => exact mirrors.renderSlot _ _

end Host.Mirrors

/-- Errors describe blueprints that are alike in the same way. -/
theorem Blueprint.Alike.malformed {one other : Blueprint}
    (alike : one.Alike other) (fault : DefinitionFault) :
    one.malformed fault = other.malformed fault := by
  have names : one.attributes.map Prod.fst = other.attributes.map Prod.fst :=
    List.forall₂_eq_eq_eq ▸ (List.forall₂_map_left_iff.mpr
      (List.forall₂_map_right_iff.mpr (alike.attributes.imp fun _ _ same =>
        same.1)))
  have none : one.attributes.isEmpty = other.attributes.isEmpty := by
    rw [← List.isEmpty_map (f := Prod.fst), names, List.isEmpty_map]
  unfold Blueprint.malformed Parts.summary
  rw [alike.tag, alike.text, alike.listeners, alike.children, none]
  dsimp only
  rw [names]

namespace Host.Mirrors

variable {kin : Kinship σ τ} {host : Host σ} {twin : Host τ}
  (mirrors : host.Mirrors kin twin)

include mirrors

theorem renderEntry {one other : Blueprint} (alike : one.Alike other)
    (node : NodeId) (applying : Bool) {name : String} {schema like : Schema}
    (same : Schema.Alike name schema like) :
    (one.renderEntry host node applying name schema).Mirrors kin
      (other.renderEntry twin node applying name like) := by
  unfold Blueprint.renderEntry
  rw [← same.styles]
  cases found : entryStyles? name schema with
  | none =>
      rw [same.plain found]
      exact mirrors.renderAttribute node applying name like
  | some outcome =>
      cases outcome with
      | error fault =>
          dsimp only
          rw [alike.malformed]
          exact .throw _
      | ok styles =>
          cases applying with
          | false => exact mirrors.renderStyles node styles
          | true =>
              refine .get fun one other twins => ?_
              rw [twins.dom]
              exact .bind (.note _) fun _ => mirrors.renderStyles node styles

theorem renderAttributes {one other : Blueprint} (alike : one.Alike other)
    (node : NodeId) (applying : Bool) :
    (one.renderAttributes host node applying).Mirrors kin
      (other.renderAttributes twin node applying) := by
  refine .forM₂ alike.attributes ?_
  rintro ⟨name, schema⟩ ⟨_, like⟩ ⟨rfl, same⟩
  exact mirrors.renderEntry alike node applying same

omit mirrors in
theorem renderListeners {one other : Blueprint} (alike : one.Alike other)
    (node : NodeId) :
    (one.renderListeners node : Pass σ Unit).Mirrors kin
      (other.renderListeners node : Pass τ Unit) := by
  unfold Blueprint.renderListeners
  rw [alike.listeners]
  refine .forM fun (key, bindings) => .bind (.ofExcept _) fun parsed => ?_
  exact .bind (.act (.mapM fun _ => (Act.IsShared.listenToNode _ _ _ _).mirrors
    (.listenToNode _ _ _ _))) fun _ => .note _

end Host.Mirrors

/-- Views are mounted in the same way in twin worlds. -/
def Mounter.Mirrors (kin : Kinship σ τ) (mounter : Mounter σ)
    (twin : Mounter τ) : Prop :=
  ∀ v, (mounter v).Mirrors kin (twin v)

/-- Templates of the scope are rendered in the same way in twin worlds. -/
def Nested.Mirrors (kin : Kinship σ τ) (nested : Nested σ) (twin : Nested τ) :
    Prop :=
  ∀ t, kin.scope t → ∀ target path,
    (nested t target path).Mirrors kin (twin t target path)

theorem Pass.Mirrors.nest {kin : Kinship σ τ} {nested : Nested σ}
    {twin : Nested τ} (mirrors : nested.Mirrors kin twin) {t : TemplateId}
    (inside : kin.scope t) (target : Option NodeId) (path : DefinitionPath) :
    (Pass.nest nested t target path).Mirrors kin
      (Pass.nest twin t target path) := by
  refine .bind (.act (mirrors t inside target path)) fun _ => ?_
  exact .bind (.note _) fun _ => .ofExcept _

namespace Blueprint

variable {kin : Kinship σ τ} {mounter : Mounter σ} {mountsToo : Mounter τ}
  {nested : Nested σ} {nestsToo : Nested τ}

theorem mirrors_mountViews (mounts : mounter.Mirrors kin mountsToo)
    (mount : Mount) (views : List ViewId) :
    (mountViews mounter mount views).Mirrors kin
      (mountViews mountsToo mount views) := by
  induction views generalizing mount with
  | nil => exact .pure mount
  | cons v rest ih =>
      exact .bind (.act (mounts v)) fun outcome => .bind (.ofExcept outcome)
        fun element => .bind
          (.shared (mount.isShared_push element) (mount.isShared_push element))
          fun mount => .keeping (ih mount)

variable (mounts : mounter.Mirrors kin mountsToo)
  (nests : nested.Mirrors kin nestsToo)

include mounts nests

private theorem mirrors_mountMember (path : DefinitionPath) (mount : Mount)
    (member : Member) (inside : ∀ t, member = .template t → kin.scope t) :
    (mountMember mounter nested path mount member).Mirrors kin
      (mountMember mountsToo nestsToo path mount member) := by
  cases member with
  | template t =>
      exact .bind (.nest nests (inside t rfl) none path) fun node =>
        .shared (mount.isShared_push node) (mount.isShared_push node)
  | view v => exact mirrors_mountViews mounts mount [v]
  | collection c =>
      refine .get fun one other twins => ?_
      rw [twins.collection]
      exact .bind (.keeping (mirrors_mountViews mounts mount _)) fun _ => .pure _
  | node n => exact .shared (mount.isShared_push n) (mount.isShared_push n)

private theorem mirrors_mountMembers (path : DefinitionPath) (index : Nat)
    (mount : Mount) (members : List Member)
    (inside : ∀ t, .template t ∈ members → kin.scope t) :
    (mountMembers mounter nested path index mount members).Mirrors kin
      (mountMembers mountsToo nestsToo path index mount members) := by
  induction members generalizing index mount with
  | nil => exact .pure mount
  | cons member rest ih =>
      refine .bind (mirrors_mountMember mounts nests _ mount member
        fun t same => inside t (same ▸ .head _)) fun mount => .keeping ?_
      exact ih (index + 1) mount fun t member => inside t (.tail _ member)

private theorem mirrors_renderMembers (members : List Member)
    (inside : ∀ t, .template t ∈ members → kin.scope t) (parent : NodeId)
    (path : DefinitionPath) :
    (renderMembers mounter nested members parent path).Mirrors kin
      (renderMembers mountsToo nestsToo members parent path) := by
  unfold renderMembers
  split
  · refine .bind (.shared (.createNode _) (.createNode _)) fun fragment =>
      .keeping (.bind (mirrors_mountMembers mounts nests path 0 _ members
        inside) fun mount => ?_)
    exact .shared (mount.isShared_finish parent) (mount.isShared_finish parent)
  · exact .pure ()

omit mounts in
private theorem mirrors_applyMembers {one other : Blueprint}
    (alike : one.Alike other)
    (node : NodeId) (path : DefinitionPath) (index place : Nat)
    (members : List Member)
    (inside : ∀ t, .template t ∈ members → kin.scope t) :
    (one.applyMembers nested node path index place members).Mirrors kin
      (other.applyMembers nestsToo node path index place members) := by
  have count : one.templateCount = other.templateCount := by
    unfold templateCount
    rw [alike.children]
  induction members generalizing index place with
  | nil => exact .pure ()
  | cons member rest ih =>
      have later := fun index place => ih index place fun t member =>
        inside t (.tail _ member)
      cases member with
      | template t =>
          rw [applyMembers, applyMembers]
          refine .get fun before after twins => ?_
          rw [twins.dom, count]
          dsimp only
          split
          · exact .bind (.nest nests (inside t (.head _)) _ _) fun _ =>
              later _ _
          · exact .throw _
      | collection c => exact later _ _
      | view v => exact .throw _
      | node n => exact .throw _

end Blueprint

theorem Host.Mirrors.renderElement {kin : Kinship σ τ} {host : Host σ}
    {twin : Host τ} (mirrors : host.Mirrors kin twin) {mounter : Mounter σ}
    {mountsToo : Mounter τ} {nested : Nested σ} {nestsToo : Nested τ}
    (mounts : mounter.Mirrors kin mountsToo)
    (nests : nested.Mirrors kin nestsToo) {one other : Blueprint}
    (alike : one.Alike other)
    (inside : ∀ t, .template t ∈ one.children → kin.scope t)
    (target : Option NodeId) (path : DefinitionPath) :
    (one.renderElement host mounter nested target path).Mirrors kin
      (other.renderElement twin mountsToo nestsToo target path) := by
  have filled (node : NodeId) :
      Pass.Mirrors kin (do
          Pass.keeping [.node node] do
            one.renderAttributes host node target.isSome
            if target.isSome then
              one.applyMembers nested node path 0 0 one.children
            else
              Blueprint.renderMembers mounter nested one.children node path
            one.renderListeners node
          return node)
        (do
          Pass.keeping [.node node] do
            other.renderAttributes twin node target.isSome
            if target.isSome then
              other.applyMembers nestsToo node path 0 0 other.children
            else
              Blueprint.renderMembers mountsToo nestsToo other.children node path
            other.renderListeners node
          return node) := by
    refine .bind (.keeping (.bind (mirrors.renderAttributes alike node _)
      fun _ => ?_)) fun _ => .pure node
    rw [← alike.children]
    split
    · exact .bind (Blueprint.mirrors_applyMembers nests alike node path 0 0 _
        inside) fun _ => renderListeners alike node
    · exact .bind (Blueprint.mirrors_renderMembers mounts nests _ inside node
        path) fun _ => renderListeners alike node
  unfold Blueprint.renderElement
  rw [← alike.tag, ← alike.namespaceName]
  match target, one.tag with
  | some node, _ => exact .bind (.pure node) filled
  | none, some tag =>
      exact .bind (.shared (.createNode _) (.createNode _)) filled
  | none, none =>
      rw [alike.malformed]
      exact .bind (.throw _) filled

/-- Checks of counterparts that come to the same. -/
theorem Except.forM_congr {ε : Type} {relation : α → α → Prop}
    {items others : List α} {check twin : α → Except ε Unit}
    (paired : List.Forall₂ relation items others)
    (each : ∀ item other, relation item other → check item = twin other) :
    items.forM check = others.forM twin := by
  induction paired with
  | nil => rfl
  | @cons item other items others same _ ih =>
      change (check item >>= fun _ => items.forM check) =
        (twin other >>= fun _ => others.forM twin)
      rw [each item other same, ih]

theorem Blueprint.Alike.checkEntries {one other : Blueprint}
    (alike : one.Alike other) : one.checkEntries = other.checkEntries := by
  unfold Blueprint.checkEntries
  rw [alike.listeners]
  congr 1
  funext _
  refine Except.forM_congr alike.attributes ?_
  rintro ⟨name, schema⟩ ⟨_, like⟩ ⟨rfl, same⟩
  have map := same.styles
  unfold entryStyles? at map
  dsimp only at map ⊢
  by_cases style : (name == "style") = true
  · rw [if_pos style, if_pos style] at map
    rw [if_pos style, if_pos style, map]
    simp only [alike.malformed]
  · rw [if_neg style, if_neg style]

namespace Template

variable {kin : Kinship σ τ} {one : World σ} {other : World τ}
  (twins : kin.Twins one other)

include twins

/-- Templates pass the check before rendering in both worlds, or fail it for
the same reason. -/
theorem checkFresh_twins {t : TemplateId} (inside : kin.scope t) :
    checkFresh one t = checkFresh other t := by
  have children (check twin : TemplateId → List TemplateId →
      Except TemplateError (List TemplateId))
      (same : ∀ t, kin.scope t → check t = twin t) (members : List Member)
      (within : ∀ t, .template t ∈ members → kin.scope t)
      (seen : List TemplateId) :
      checkFreshChildren one check members seen =
        checkFreshChildren other twin members seen := by
    induction members generalizing seen with
    | nil => rfl
    | cons member rest ih =>
        have later := ih fun t member => within t (.tail _ member)
        cases member with
        | template t =>
            have here := within t (.head _)
            simp only [checkFreshChildren, same t here, later,
              kin.rendered (twins.templates t here)]
        | view v => exact later seen
        | collection c => exact later seen
        | node n => exact later seen
  have fresh (fuel : Nat) (t : TemplateId) (inside : kin.scope t) :
      checkFreshWithin one fuel t = checkFreshWithin other fuel t := by
    induction fuel generalizing t with
    | zero => rfl
    | succ fuel ih =>
        funext seen
        have alike := kin.blueprint (twins.templates t inside)
        simp only [checkFreshWithin, alike.tag, alike.text, alike.malformed,
          alike.checkEntries]
        rw [children _ _ ih _ (twins.nested t inside) seen, alike.children]
  rw [checkFresh, checkFresh, fresh _ t inside]

/-- Templates can be applied in both worlds, or cannot for the same reason. -/
theorem checkApply_twins {t : TemplateId} (inside : kin.scope t) (n : NodeId) :
    checkApply one t n = checkApply other t n := by
  have children (mismatch : TemplateError) (path : DefinitionPath)
      (check twin : TemplateId → NodeId → DefinitionPath →
        Except TemplateError Unit)
      (same : ∀ t, kin.scope t → check t = twin t) (index : Nat)
      (members : List Member)
      (within : ∀ t, .template t ∈ members → kin.scope t)
      (nodes : List NodeId) :
      checkApplyChildren mismatch path check index members nodes =
        checkApplyChildren mismatch path twin index members nodes := by
    induction members generalizing index nodes with
    | nil => rfl
    | cons member rest ih =>
        have later := fun index => ih index fun t member =>
          within t (.tail _ member)
        cases member with
        | template t =>
            cases nodes with
            | nil => rfl
            | cons n nodes =>
                simp only [checkApplyChildren, same t (within t (.head _)),
                  later]
        | view v => exact later _ nodes
        | collection c => exact later _ nodes
        | node n => exact later _ nodes
  have fits (fuel : Nat) (t : TemplateId) (inside : kin.scope t) :
      checkApplyWithin one fuel t = checkApplyWithin other fuel t := by
    induction fuel generalizing t with
    | zero => rfl
    | succ fuel ih =>
        funext n path
        have alike := kin.blueprint (twins.templates t inside)
        have count : (one.template t).blueprint.templateCount =
            (other.template t).blueprint.templateCount := by
          unfold Blueprint.templateCount
          rw [alike.children]
        simp only [checkApplyWithin, alike.tag, alike.text, alike.malformed,
          alike.checkEntries, twins.dom, count]
        rw [← alike.children, children _ _ _ _ ih _ _ (twins.nested t inside)]
  rw [checkApply, checkApply, fits _ t inside]

end Template

section Operations

variable {kin : Kinship σ τ} {host : Host σ} {twin : Host τ}
  {mounter : Mounter σ} {mountsToo : Mounter τ} {nested : Nested σ}
  {nestsToo : Nested τ}

namespace Template

theorem mirrors_update (t : TemplateId) {change : Template → Template}
    (blueprint : ∀ template, (change template).blueprint = template.blueprint)
    (alike : ∀ {one other}, kin.alike one other →
      kin.alike (change one) (change other)) :
    (update t change : Act σ Unit).Mirrors kin
      (update t change : Act τ Unit) := by
  intro one other twins
  refine ⟨rfl, twins.rest, fun inner inside => ?_, fun inner inside => ?_,
    fun sized => ?_, twins.viewed, twins.clients⟩
  · by_cases same : inner = t
    · subst same
      rw [template_update, template_update]
      exact alike (twins.templates inner inside)
    · rw [template_update_of_ne _ _ same, template_update_of_ne _ _ same]
      exact twins.templates inner inside
  · by_cases same : inner = t
    · subst same
      rw [template_update, blueprint]
      exact twins.nested inner inside
    · rw [template_update_of_ne _ _ same]
      exact twins.nested inner inside
  · exact (Store.size_modify _ _ _).trans
      ((congrArg (max · (t.index + 1)) (twins.size sized)).trans
        (Store.size_modify _ _ _).symm)

theorem mirrors_pass (mirrors : host.Mirrors kin twin)
    (mounts : mounter.Mirrors kin mountsToo)
    (nests : nested.Mirrors kin nestsToo) {t : TemplateId}
    (inside : kin.scope t) (target : Option NodeId) (path : DefinitionPath) :
    (pass host mounter nested t target path).Mirrors kin
      (pass twin mountsToo nestsToo t target path) := by
  intro record one other twins
  have same := twins.templates t inside
  have alike := kin.blueprint same
  have made : Pass.Mirrors kin
      (passWith host mounter nested t (one.template t).blueprint target path)
      (passWith twin mountsToo nestsToo t (other.template t).blueprint target
        path) := by
    have marks (node : NodeId) : Pass.Mirrors kin
        (Pass.act (update t fun template =>
          { template with rendered := true }) >>= fun _ => pure node)
        (Pass.act (update t fun template =>
          { template with rendered := true }) >>= fun _ => pure node) :=
      .bind (.act (mirrors_update t (fun _ => rfl) kin.marked)) fun _ =>
        .pure node
    have text := mirrors.renderText alike target
    have element := mirrors.renderElement mounts nests alike
      (twins.nested t inside) target path
    unfold passWith
    rw [← alike.text]
    by_cases isText : (one.template t).blueprint.text.isSome = true
    · rw [if_pos isText, if_pos isText]
      cases target with
      | none => exact .bind text marks
      | some n => exact .bind text .pure
    · rw [if_neg isText, if_neg isText]
      cases target with
      | none => exact .bind element marks
      | some n => exact .bind element .pure
  unfold Act.result Act.after
  rw [start_pass, start_pass, ← kin.rendered same]
  split
  · exact ⟨rfl, twins⟩
  · exact made record one other twins

theorem mirrors_passWithin (mirrors : host.Mirrors kin twin)
    (mounts : mounter.Mirrors kin mountsToo) (fuel : Nat) :
    Nested.Mirrors kin (passWithin host mounter fuel)
      (passWithin twin mountsToo fuel) := by
  induction fuel with
  | zero => exact fun _ _ _ _ => .pure _
  | succ fuel ih =>
      exact fun t inside target path =>
        mirrors_pass mirrors mounts ih inside target path .empty

theorem mirrors_renderWith (mirrors : host.Mirrors kin twin)
    (mounts : mounter.Mirrors kin mountsToo) {t : TemplateId}
    (inside : kin.scope t) :
    (renderWith host mounter t).Mirrors kin (renderWith twin mountsToo t) := by
  intro one other twins
  have passed : (renderPass host mounter t >>= release).Mirrors kin
      (renderPass twin mountsToo t >>= release) := by
    refine .bind (.keeping (mirrors_passWithin mirrors mounts _ t inside none
      [])) ?_
    rintro ⟨error | node, record⟩
    · exact .bind (record.isShared_revokeAll.mirrors record.isShared_revokeAll)
        fun _ => .pure _
    · exact .pure _
  unfold Act.result Act.after
  rw [run_renderWith, run_renderWith,
    ← kin.rendered (twins.templates t inside), ← checkFresh_twins twins inside]
  split
  · exact ⟨rfl, twins⟩
  · cases checkFresh one t with
    | error error => exact ⟨rfl, twins⟩
    | ok => exact passed one other twins

end Template

namespace View

theorem mirrors_update (v : ViewId) {change : View → View}
    (template : ∀ view, (change view).template = view.template) :
    (update v change : Act σ Unit).Mirrors kin
      (update v change : Act τ Unit) := by
  have shared (ρ : Type) :
      Act.IsShared (update v change) (update v change : Act ρ Unit) := by
    refine ⟨fun _ => rfl, fun _ => rfl, fun _ => rfl, fun world other => ?_,
      fun _ => rfl⟩
    by_cases same : other = v
    · rw [same, view_update, template]
    · rw [view_update_of_ne _ _ same]
  exact (shared σ).mirrors (shared τ)

theorem mirrors_mountWith
    {render : ViewId → Act σ (Except TemplateError Unit)}
    {renderToo : ViewId → Act τ (Except TemplateError Unit)}
    (renders : ∀ v, (render v).Mirrors kin (renderToo v)) :
    Mounter.Mirrors kin (mountWith render) (mountWith renderToo) := by
  intro v one other twins
  have settles (outcome : Except TemplateError Unit) :
      (settleMount v outcome).Mirrors kin (settleMount v outcome) := by
    cases outcome with
    | error error => exact .pure _
    | ok =>
        refine .get fun one other twins => ?_
        rw [twins.view]
        split <;> exact .pure _
  unfold Act.result Act.after
  rw [run_mountWith, run_mountWith, ← twins.view]
  split
  · exact settles _ one other twins
  · exact Act.Mirrors.bind (renders v) settles one other twins

private theorem mirrors_renderWithin (mirrors : host.Mirrors kin twin)
    (fuel : Nat)
    (v : ViewId) :
    (renderWithin host fuel v).Mirrors kin (renderWithin twin fuel v) := by
  induction fuel generalizing v with
  | zero => exact .pure _
  | succ fuel ih =>
      intro one other twins
      have settles (outcome : Except TemplateError NodeId) :
          (settleRender v outcome).Mirrors kin (settleRender v outcome) := by
        cases outcome with
        | error error => exact .pure _
        | ok element =>
            exact .bind (mirrors_update v fun _ => rfl) fun _ => .pure _
      unfold Act.result Act.after
      rw [run_renderWithin, run_renderWithin, ← twins.view]
      split
      · exact ⟨rfl, twins⟩
      · cases found : (one.view v).template with
        | none =>
            have marks : Act.Mirrors kin
                (update v fun view => { view with rendered := true })
                (update v fun view => { view with rendered := true }) :=
              mirrors_update v fun _ => rfl
            exact ⟨rfl, (marks one other twins).2⟩
        | some t =>
            exact Act.Mirrors.bind (.keeping (Template.mirrors_renderWith
              mirrors (mirrors_mountWith ih) (twins.viewed v t found))) settles
              one other twins

theorem mirrors_mount (mirrors : host.Mirrors kin twin) :
    Mounter.Mirrors kin (mount host) (mount twin) := by
  refine mirrors_mountWith fun v => .get fun one other twins => ?_
  have depth : depthBound one = depthBound other :=
    congrArg depthBound twins.rest
  rw [depth]
  exact mirrors_renderWithin mirrors _ v

end View

theorem Template.mirrors_render (mirrors : host.Mirrors kin twin)
    {t : TemplateId} (inside : kin.scope t) :
    (Template.render host t).Mirrors kin (Template.render twin t) := by
  exact mirrors_renderWith mirrors (View.mirrors_mount mirrors) inside

end Operations

namespace Host.Mirrors

variable {kin : Kinship σ τ} {host : Host σ} {twin : Host τ}
  (mirrors : host.Mirrors kin twin)

include mirrors

theorem react (notice : Notice) (reaction : Reaction) :
    (Observable.react host notice reaction).Mirrors kin
      (Observable.react twin notice reaction) := by
  cases reaction with
  | sync group => exact mirrors.sync group
  | call handler => exact mirrors.notice handler notice

theorem notifyEach (o : ObservableId) (notice : Notice)
    (listeners : List (Listener Reaction)) :
    (Observable.notifyEach host o notice listeners).Mirrors kin
      (Observable.notifyEach twin o notice listeners) := by
  induction listeners with
  | nil => exact .pure ()
  | cons listener rest ih =>
      rw [Observable.notifyEach, Observable.notifyEach]
      refine .get fun one other twins => ?_
      rw [twins.reactionsOf]
      split
      · exact .bind (.keeping (mirrors.react notice listener.action))
          fun _ => ih
      · exact ih

theorem fire (o : ObservableId) (name : String) (payload : Payload) :
    (Observable.fire host o name payload).Mirrors kin
      (Observable.fire twin o name payload) := by
  refine .get fun one other twins => ?_
  rw [twins.reactionsOf]
  exact mirrors.notifyEach o _ _

/-- A property is set in the same way in twin worlds. -/
theorem set (o : ObservableId) (name : String) (value : Value) :
    (Observable.set host o name value).Mirrors kin
      (Observable.set twin o name value) := by
  refine .get fun one other twins => ?_
  rw [twins.property]
  refine .bind ((Act.IsShared.store o name value).mirrors
    (.store o name value)) fun _ => ?_
  split
  · exact mirrors.fire o _ _
  · exact .pure ()

end Host.Mirrors

end LiveTemplate
