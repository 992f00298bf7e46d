import LiveTemplate.Dom.InlineStyle
import LiveTemplate.Dom.Tree
import LiveTemplate.Template.Evaluate

/-!
# Keeping slots up to date

A slot shows a truthy value as text; for a falsy value the attribute or style
property is removed and the text emptied.
-/

namespace LiveTemplate

variable {σ : Type}

namespace Slot

def set (dom : Dom) (slot : Slot) (value : Value) : Dom :=
  match slot with
  | text node => dom.setText node value.domString
  | attr node namespaceName name =>
      dom.setAttributeNs node namespaceName name value.domString
  | style node property => dom.setStyleProperty node property value.domString

def clear (dom : Dom) (slot : Slot) : Dom :=
  match slot with
  | text node => dom.setText node ""
  | attr node namespaceName name =>
      dom.removeAttributeNs node namespaceName name
  | style node property => dom.removeStyleProperty node property

/-- Show a value. -/
def display (dom : Dom) (slot : Slot) (value : Value) : Dom :=
  if value.isFalsy then slot.clear dom else slot.set dom value

end Slot

/-- Show the present value of a group. -/
def SyncGroup.sync (host : Host σ) (group : SyncGroup) : Act σ Unit := do
  let value ← evaluate host group.slot.node group.chunks
  modifyDom fun dom => group.slot.display dom value

end LiveTemplate
