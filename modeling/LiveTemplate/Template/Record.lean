import LiveTemplate.Dom.Tree
import LiveTemplate.Emitter

/-!
# Undoing what a record holds

`Record.revokeAll` gives up all subscriptions of a record and of the records
below it.  `Record.restore` also puts back texts and attributes, walking the
children of the node by their places.
-/

namespace LiveTemplate

variable {σ : Type}

namespace Record

def empty : Record := ⟨none, [], [], []⟩

mutual

def revokeAll : Record → Act σ Unit
  | ⟨_, _, bindings, children⟩ => do
      bindings.forM fun group => group.forM Revoker.revoke
      revokeEach children

def revokeEach : List Record → Act σ Unit
  | [] => pure ()
  | record :: rest => do
      revokeAll record
      revokeEach rest

end

/-- Put an attribute back. -/
def restoreAttribute (n : NodeId) (saved : SavedAttribute) : Act σ Unit :=
  modifyDom fun dom =>
    match saved.value with
    | some value => dom.setAttributeNs n saved.namespaceName saved.name value
    | none => dom.removeAttributeNs n saved.namespaceName saved.name

mutual

def restore (n : NodeId) : Record → Act σ Unit
  | ⟨text, attributes, bindings, children⟩ => do
      bindings.forM fun group => group.forM Revoker.revoke
      match text with
      | some data => modifyDom fun dom => dom.setText n data
      | none =>
          attributes.forM (restoreAttribute n)
          restoreEach n 0 children

/-- Restore the children of a node from the given place on; what has no node
any more is only revoked. -/
def restoreEach (n : NodeId) : Nat → List Record → Act σ Unit
  | _, [] => pure ()
  | index, record :: rest => do
      match ((← get).dom.children n)[index]? with
      | some child => restore child record
      | none => revokeAll record
      restoreEach n (index + 1) rest

end

end Record

end LiveTemplate
