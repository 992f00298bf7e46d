import LiveTemplate.Text.Blank
import LiveTemplate.World

/-!
# Values of schemas

The value of a schema joins the truthy values of its chunks, with one space
between two unless there already is a blank.  A single choice stands for
itself, so its value may be a falsy one.
-/

namespace LiveTemplate

variable {σ : Type}

/-- Join two values; a falsy one adds nothing. -/
def joinValues (left right : Value) : Value :=
  if right.isFalsy then left
  else if left.isFalsy then right
  else
    let head := left.domString
    let tail := right.domString
    if endsWithBlank head || startsWithBlank tail then .text (head ++ tail)
    else .text (head ++ " " ++ tail)

/-- The value of a binding for a node. -/
def Binding.evaluate (host : Host σ) (node : NodeId) (binding : Binding) :
    Act σ Value := do
  let raw := (← get).property binding.observable binding.property
  let value ←
    match binding.transform with
    | none => pure raw
    | some handler => host.transform handler raw node
  return binding.rule.apply value

/-- The binding of a schema that consists of one choice. -/
def loneChoice? (chunks : List Chunk) : Option Binding :=
  match chunks with
  | [.bound binding] => if binding.rule.isChoice then some binding else none
  | _ => none

mutual

/-- The value of one chunk. -/
def Chunk.evaluate (host : Host σ) (node : NodeId) : Chunk → Act σ Value
  | .fixed value => pure value
  | .bound binding => binding.evaluate host node
  | .namespaced _ chunks =>
      match loneChoice? chunks with
      | some binding => binding.evaluate host node
      | none => joinChunks host node chunks .undefined
  | .styles _ => pure .undefined

/-- Join the values of chunks to a value, in order. -/
def joinChunks (host : Host σ) (node : NodeId) :
    List Chunk → Value → Act σ Value
  | [], value => pure value
  | chunk :: chunks, value => do
      let next ← chunk.evaluate host node
      joinChunks host node chunks (joinValues value next)

end

/-- The value of a schema for a node. -/
def evaluate (host : Host σ) (node : NodeId) (chunks : List Chunk) :
    Act σ Value :=
  match loneChoice? chunks with
  | some binding => binding.evaluate host node
  | none => joinChunks host node chunks .undefined

end LiveTemplate
