import LiveTemplate.Proofs.Computation
import LiveTemplate.Template.Evaluate

/-!
# Values without side effects

A transform that answers from the value and the tag of the node alone turns
the evaluation of a schema into a function of the properties.  `schemaValue`
is that function: `result_evaluate` says that running the evaluation computes
it, `after_evaluate` that this leaves the world as it was.

Two values that agree are shown alike, so a property that is set to an agreeing
value leaves every shown value as it is.
-/

namespace LiveTemplate

variable {σ : Type}

/-- What handlers make of a value for a node with the given tag. -/
abbrev Meaning := Handler → Value → Option String → Value

/-- The values of all properties. -/
abbrev Reading := ObservableId → String → Value

mutual

/-- The bindings whose values enter the value of a chunk. -/
def Chunk.inputs : Chunk → List Binding
  | .fixed _ => []
  | .bound binding => [binding]
  | .namespaced _ chunks => inputsAny chunks
  | .styles _ => []

def inputsAny : List Chunk → List Binding
  | [] => []
  | chunk :: chunks => chunk.inputs ++ inputsAny chunks

end

@[simp] theorem inputsAny_append (left right : List Chunk) :
    inputsAny (left ++ right) = inputsAny left ++ inputsAny right := by
  induction left with
  | nil => rfl
  | cons chunk rest ih => simp [inputsAny, ih]

@[simp] theorem inputsAny_map_fixed (values : List Value) :
    inputsAny (values.map .fixed) = [] := by
  induction values with
  | nil => rfl
  | cons value rest ih => simp [inputsAny, Chunk.inputs, ih]

namespace Binding

/-- Evaluating the binding never changes the world. -/
def IsPure (host : Host σ) (binding : Binding) : Prop :=
  ∀ handler, binding.transform = some handler → ∀ value node world,
    (host.transform handler value node).after world = world

/-- The transform of the binding is a function of the value and of the tag of
the node. -/
def Means (host : Host σ) (meaning : Meaning) (binding : Binding) : Prop :=
  ∀ handler, binding.transform = some handler → ∀ value node world,
    (host.transform handler value node).result world =
        meaning handler value (world.dom.tag? node) ∧
      (host.transform handler value node).after world = world

theorem Means.isPure {host : Host σ} {meaning : Meaning} {binding : Binding}
    (means : binding.Means host meaning) : binding.IsPure host := by
  intro handler present value node world
  exact (means handler present value node world).2

/-- The value of a binding for a node with the given tag. -/
def valueIn (meaning : Meaning) (reading : Reading) (tag : Option String)
    (binding : Binding) : Value :=
  let raw := reading binding.observable binding.property
  binding.rule.apply
    (match binding.transform with
    | none => raw
    | some handler => meaning handler raw tag)

theorem after_evaluate {host : Host σ} {binding : Binding}
    (isPure : binding.IsPure host) (node : NodeId) (world : World σ) :
    (binding.evaluate host node).after world = world := by
  unfold evaluate
  cases present : binding.transform with
  | none => simp
  | some handler => simp [isPure handler present]

theorem result_evaluate {host : Host σ} {meaning : Meaning}
    {binding : Binding} (means : binding.Means host meaning) (node : NodeId)
    (world : World σ) :
    (binding.evaluate host node).result world =
      binding.valueIn meaning world.property (world.dom.tag? node) := by
  unfold evaluate valueIn
  cases present : binding.transform with
  | none => simp
  | some handler => simp [(means handler present _ node world).1]

end Binding

mutual

/-- The value of one chunk. -/
def Chunk.valueIn (meaning : Meaning) (reading : Reading)
    (tag : Option String) : Chunk → Value
  | .fixed value => value
  | .bound binding => binding.valueIn meaning reading tag
  | .namespaced _ chunks =>
      match loneChoice? chunks with
      | some binding => binding.valueIn meaning reading tag
      | none => joinedIn meaning reading tag chunks .undefined
  | .styles _ => .undefined

/-- The values of chunks joined to a value, in order. -/
def joinedIn (meaning : Meaning) (reading : Reading) (tag : Option String) :
    List Chunk → Value → Value
  | [], value => value
  | chunk :: chunks, value =>
      joinedIn meaning reading tag chunks
        (joinValues value (chunk.valueIn meaning reading tag))

end

/-- The value of a schema for a node with the given tag. -/
def schemaValue (meaning : Meaning) (reading : Reading)
    (tag : Option String) (chunks : List Chunk) : Value :=
  match loneChoice? chunks with
  | some binding => binding.valueIn meaning reading tag
  | none => joinedIn meaning reading tag chunks .undefined

theorem loneChoice?_eq_some {chunks : List Chunk} {binding : Binding}
    (found : loneChoice? chunks = some binding) :
    chunks = [.bound binding] := by
  unfold loneChoice? at found
  split at found
  · split at found
    · cases found
      rfl
    · cases found
  · cases found

theorem mem_inputsAny_of_loneChoice? {chunks : List Chunk} {binding : Binding}
    (found : loneChoice? chunks = some binding) :
    binding ∈ inputsAny chunks := by
  rw [loneChoice?_eq_some found]
  simp [inputsAny, Chunk.inputs]

section Pure

variable {host : Host σ}

mutual

theorem Chunk.after_evaluate (node : NodeId) (world : World σ)
    (chunk : Chunk) (isPure : ∀ binding ∈ chunk.inputs, binding.IsPure host) :
    (chunk.evaluate host node).after world = world := by
  cases chunk with
  | fixed value => simp [Chunk.evaluate]
  | bound binding =>
      rw [Chunk.evaluate]
      exact Binding.after_evaluate (isPure binding (by simp [Chunk.inputs]))
        node world
  | namespaced namespaceName chunks =>
      simp only [Chunk.inputs] at isPure
      rw [Chunk.evaluate]
      cases lone : loneChoice? chunks with
      | none => exact after_joinChunks node world chunks .undefined isPure
      | some binding =>
          exact Binding.after_evaluate
            (isPure binding (mem_inputsAny_of_loneChoice? lone)) node world
  | styles properties => simp [Chunk.evaluate]

theorem after_joinChunks (node : NodeId) (world : World σ)
    (chunks : List Chunk) (value : Value)
    (isPure : ∀ binding ∈ inputsAny chunks, binding.IsPure host) :
    (joinChunks host node chunks value).after world = world := by
  cases chunks with
  | nil => simp [joinChunks]
  | cons chunk chunks =>
      simp only [inputsAny, List.mem_append] at isPure
      have head := Chunk.after_evaluate node world chunk
        (fun binding member => isPure binding (.inl member))
      simp only [joinChunks, Act.after_bind, head]
      exact after_joinChunks node world chunks _
        (fun binding member => isPure binding (.inr member))

end

theorem after_evaluate (node : NodeId) (world : World σ) {chunks : List Chunk}
    (isPure : ∀ binding ∈ inputsAny chunks, binding.IsPure host) :
    (evaluate host node chunks).after world = world := by
  unfold evaluate
  cases lone : loneChoice? chunks with
  | none => exact after_joinChunks node world chunks .undefined isPure
  | some binding =>
      exact Binding.after_evaluate
        (isPure binding (mem_inputsAny_of_loneChoice? lone)) node world

end Pure

section Meaning

variable {host : Host σ} {meaning : Meaning}

mutual

theorem Chunk.result_evaluate (node : NodeId) (world : World σ)
    (chunk : Chunk)
    (means : ∀ binding ∈ chunk.inputs, binding.Means host meaning) :
    (chunk.evaluate host node).result world =
      chunk.valueIn meaning world.property (world.dom.tag? node) := by
  cases chunk with
  | fixed value => simp [Chunk.evaluate, Chunk.valueIn]
  | bound binding =>
      rw [Chunk.evaluate, Chunk.valueIn]
      exact Binding.result_evaluate (means binding (by simp [Chunk.inputs]))
        node world
  | namespaced namespaceName chunks =>
      simp only [Chunk.inputs] at means
      rw [Chunk.evaluate, Chunk.valueIn]
      cases lone : loneChoice? chunks with
      | none => exact result_joinChunks node world chunks .undefined means
      | some binding =>
          exact Binding.result_evaluate
            (means binding (mem_inputsAny_of_loneChoice? lone)) node world
  | styles properties => simp [Chunk.evaluate, Chunk.valueIn]

theorem result_joinChunks (node : NodeId) (world : World σ)
    (chunks : List Chunk) (value : Value)
    (means : ∀ binding ∈ inputsAny chunks, binding.Means host meaning) :
    (joinChunks host node chunks value).result world =
      joinedIn meaning world.property (world.dom.tag? node) chunks value := by
  cases chunks with
  | nil => simp [joinChunks, joinedIn]
  | cons chunk chunks =>
      simp only [inputsAny, List.mem_append] at means
      have headMeans : ∀ binding ∈ chunk.inputs,
          binding.Means host meaning :=
        fun binding member => means binding (.inl member)
      have head := Chunk.result_evaluate node world chunk headMeans
      have unchanged := Chunk.after_evaluate node world chunk
        (fun binding member => (headMeans binding member).isPure)
      simp only [joinChunks, joinedIn, Act.result_bind, head, unchanged]
      exact result_joinChunks node world chunks _
        (fun binding member => means binding (.inr member))

end

theorem result_evaluate (node : NodeId) (world : World σ)
    {chunks : List Chunk}
    (means : ∀ binding ∈ inputsAny chunks, binding.Means host meaning) :
    (evaluate host node chunks).result world =
      schemaValue meaning world.property (world.dom.tag? node) chunks := by
  unfold evaluate schemaValue
  cases lone : loneChoice? chunks with
  | none => exact result_joinChunks node world chunks .undefined means
  | some binding =>
      exact Binding.result_evaluate
        (means binding (mem_inputsAny_of_loneChoice? lone)) node world

end Meaning

section Congruence

variable {meaning : Meaning} {reading other : Reading} {tag : Option String}

theorem Binding.valueIn_congr {binding : Binding}
    (same : reading binding.observable binding.property =
      other binding.observable binding.property) :
    binding.valueIn meaning reading tag =
      binding.valueIn meaning other tag := by
  unfold valueIn
  rw [same]

mutual

theorem Chunk.valueIn_congr (chunk : Chunk)
    (same : ∀ binding ∈ chunk.inputs,
      reading binding.observable binding.property =
        other binding.observable binding.property) :
    chunk.valueIn meaning reading tag = chunk.valueIn meaning other tag := by
  cases chunk with
  | fixed value => rfl
  | bound binding =>
      exact Binding.valueIn_congr (same binding (by simp [Chunk.inputs]))
  | namespaced namespaceName chunks =>
      simp only [Chunk.inputs] at same
      simp only [Chunk.valueIn]
      cases lone : loneChoice? chunks with
      | none => exact joinedIn_congr chunks same _
      | some binding =>
          exact Binding.valueIn_congr
            (same binding (mem_inputsAny_of_loneChoice? lone))
  | styles properties => rfl

theorem joinedIn_congr (chunks : List Chunk)
    (same : ∀ binding ∈ inputsAny chunks,
      reading binding.observable binding.property =
        other binding.observable binding.property) (value : Value) :
    joinedIn meaning reading tag chunks value =
      joinedIn meaning other tag chunks value := by
  cases chunks with
  | nil => rfl
  | cons chunk chunks =>
      simp only [inputsAny, List.mem_append] at same
      simp only [joinedIn]
      rw [Chunk.valueIn_congr chunk fun binding member =>
        same binding (.inl member)]
      exact joinedIn_congr chunks (fun binding member =>
        same binding (.inr member)) _

end

/-- The value of a schema depends on the properties that it is bound to. -/
theorem schemaValue_congr {chunks : List Chunk}
    (same : ∀ binding ∈ inputsAny chunks,
      reading binding.observable binding.property =
        other binding.observable binding.property) :
    schemaValue meaning reading tag chunks =
      schemaValue meaning other tag chunks := by
  unfold schemaValue
  cases lone : loneChoice? chunks with
  | none => exact joinedIn_congr chunks same _
  | some binding =>
      exact Binding.valueIn_congr
        (same binding (mem_inputsAny_of_loneChoice? lone))

end Congruence

/-- Equal values and values that agree. -/
def Value.Alike (left right : Value) : Prop :=
  left = right ∨ left.agrees right = true

private theorem Double.floatText_eq_of_agrees {left right : Double}
    (agree : left.agrees right = true) :
    Value.floatText left = Value.floatText right := by
  unfold Double.agrees at agree
  split at agree
  · cases agree
  · cases agree
  · rename_i leftSign leftExponent rightSign rightExponent leftRead rightRead
    -- The two zeros: both are the integer zero.
    have leftZero : left.integer? = some 0 := by
      simp [Double.integer?, leftRead]
    have rightZero : right.integer? = some 0 := by
      simp [Double.integer?, rightRead]
    have small : 0 < tenTo 15 := by decide
    simp [Value.floatText, leftZero, rightZero, small]
  · have sameBits : left.bits = right.bits := by simpa using agree
    cases left
    cases right
    cases sameBits
    rfl

namespace Value.Alike

theorem refl (value : Value) : Value.Alike value value := by
  exact .inl rfl

theorem isFalsy_eq {left right : Value} (alike : left.Alike right) :
    left.isFalsy = right.isFalsy := by
  rcases alike with rfl | agree
  · rfl
  · cases left <;> cases right <;> simp_all [Value.agrees, Value.isFalsy]

theorem domString_eq {left right : Value} (alike : left.Alike right) :
    left.domString = right.domString := by
  rcases alike with rfl | agree
  · rfl
  · cases left with
    | float number =>
        cases right with
        | float other =>
            exact Double.floatText_eq_of_agrees (by
              simpa [Value.agrees] using agree)
        | _ => simp [Value.agrees] at agree
    | _ => cases right <;> simp_all [Value.agrees, Value.domString]

theorem apply {left right : Value} (alike : left.Alike right)
    (rule : BindingRule) : (rule.apply left).Alike (rule.apply right) := by
  cases rule with
  | value => exact alike
  | choice ifTrue =>
      simp only [BindingRule.apply, alike.isFalsy_eq]
      exact .refl _

theorem joinValues {first second left right : Value}
    (ahead : first.Alike second) (behind : left.Alike right) :
    (LiveTemplate.joinValues first left).Alike
      (LiveTemplate.joinValues second right) := by
  simp only [LiveTemplate.joinValues, behind.isFalsy_eq, ahead.isFalsy_eq,
    ahead.domString_eq, behind.domString_eq]
  split
  · exact ahead
  · split
    · exact behind
    · exact .refl _

end Value.Alike

/-- The meaning of a handler takes agreeing values to values shown alike. -/
def Meaning.Respects (meaning : Meaning) : Prop :=
  ∀ handler left right tag, left.agrees right = true →
    (meaning handler left tag).Alike (meaning handler right tag)

section Alike

variable {meaning : Meaning} {reading other : Reading} {tag : Option String}

theorem Binding.valueIn_alike (respects : meaning.Respects)
    {binding : Binding}
    (alike : (reading binding.observable binding.property).Alike
      (other binding.observable binding.property)) :
    (binding.valueIn meaning reading tag).Alike
      (binding.valueIn meaning other tag) := by
  unfold valueIn
  apply Value.Alike.apply
  cases binding.transform with
  | none => exact alike
  | some handler =>
      rcases alike with same | agree
      · rw [same]
        exact .refl _
      · exact respects handler _ _ tag agree

mutual

theorem Chunk.valueIn_alike (respects : meaning.Respects) (chunk : Chunk)
    (alike : ∀ binding ∈ chunk.inputs,
      (reading binding.observable binding.property).Alike
        (other binding.observable binding.property)) :
    (chunk.valueIn meaning reading tag).Alike
      (chunk.valueIn meaning other tag) := by
  cases chunk with
  | fixed value => exact .refl _
  | bound binding =>
      exact Binding.valueIn_alike respects
        (alike binding (by simp [Chunk.inputs]))
  | namespaced namespaceName chunks =>
      simp only [Chunk.inputs] at alike
      simp only [Chunk.valueIn]
      cases lone : loneChoice? chunks with
      | none => exact joinedIn_alike respects chunks alike (.refl _)
      | some binding =>
          exact Binding.valueIn_alike respects
            (alike binding (mem_inputsAny_of_loneChoice? lone))
  | styles properties => exact .refl _

theorem joinedIn_alike (respects : meaning.Respects) (chunks : List Chunk)
    (alike : ∀ binding ∈ inputsAny chunks,
      (reading binding.observable binding.property).Alike
        (other binding.observable binding.property))
    {left right : Value} (values : left.Alike right) :
    (joinedIn meaning reading tag chunks left).Alike
      (joinedIn meaning other tag chunks right) := by
  cases chunks with
  | nil => exact values
  | cons chunk chunks =>
      simp only [inputsAny, List.mem_append] at alike
      have head := Chunk.valueIn_alike respects chunk
        (fun binding member => alike binding (.inl member))
      exact joinedIn_alike respects chunks
        (fun binding member => alike binding (.inr member))
        (values.joinValues head)

end

/-- Readings that are alike give schemas values shown alike. -/
theorem schemaValue_alike (respects : meaning.Respects) {chunks : List Chunk}
    (alike : ∀ binding ∈ inputsAny chunks,
      (reading binding.observable binding.property).Alike
        (other binding.observable binding.property)) :
    (schemaValue meaning reading tag chunks).Alike
      (schemaValue meaning other tag chunks) := by
  unfold schemaValue
  cases lone : loneChoice? chunks with
  | none => exact joinedIn_alike respects chunks alike (.refl _)
  | some binding =>
      exact Binding.valueIn_alike respects
        (alike binding (mem_inputsAny_of_loneChoice? lone))

end Alike

end LiveTemplate
