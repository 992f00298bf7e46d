import LiveTemplate.Proofs.Evaluation

/-!
# Joined values in closed form

A schema is evaluated from the left, one chunk after the other, and a schema
inside a namespace on its own.  What comes of it can be said without following
any of this: the values of all its fixed chunks and bindings stand next to each
other in order, without the falsy ones, and a space goes between two neighbours
unless there already is a blank.

Joining is associative up to which falsy value stands for nothing, and so it
makes no difference whether namespaces are evaluated on their own or their
schemas put in their place.
-/

namespace LiveTemplate

variable {σ : Type}

/-- What goes between two neighbours. -/
def gap (left right : String) : String :=
  if endsWithBlank left || startsWithBlank right then "" else " "

/-- Texts in order, with gaps between neighbours. -/
def spaced : List String → String
  | [] => ""
  | [text] => text
  | text :: next :: rest => text ++ gap text next ++ spaced (next :: rest)

private theorem startsWithBlank_append {left : String} (right : String)
    (there : left ≠ "") :
    startsWithBlank (left ++ right) = startsWithBlank left := by
  obtain ⟨c, rest, some⟩ := List.exists_cons_of_ne_nil
    (mt String.toList_eq_nil_iff.mp there)
  simp [startsWithBlank, String.front?_eq, some]

private theorem endsWithBlank_append (left : String) {right : String}
    (there : right ≠ "") :
    endsWithBlank (left ++ right) = endsWithBlank right := by
  obtain ⟨c, rest, some⟩ := List.exists_cons_of_ne_nil
    (mt String.toList_eq_nil_iff.mp there)
  have last : (c :: rest).getLast?.isSome = true := by simp
  simp [endsWithBlank, String.back?_eq, some, List.getLast?_append,
    Option.or_of_isSome last]

theorem gap_append_left (left : String) {middle : String} (right : String)
    (there : middle ≠ "") : gap (left ++ middle) right = gap middle right := by
  rw [gap, gap, endsWithBlank_append left there]

theorem gap_append_right (left : String) {middle : String} (right : String)
    (there : middle ≠ "") : gap left (middle ++ right) = gap left middle := by
  rw [gap, gap, startsWithBlank_append right there]

theorem gap_spaced (left : String) {text : String} (rest : List String)
    (there : text ≠ "") : gap left (spaced (text :: rest)) = gap left text := by
  cases rest with
  | nil => rfl
  | cons next rest =>
      rw [spaced, String.append_assoc, gap_append_right left _ there]

theorem spaced_ne_empty {text : String} (rest : List String)
    (there : text ≠ "") : spaced (text :: rest) ≠ "" := by
  cases rest with
  | nil => exact there
  | cons next rest =>
      rw [spaced]
      simp [there]

/-- Texts that are put together in two parts have one more gap, between the
parts. -/
theorem spaced_append {texts more : List String} (some : texts ≠ [])
    (others : more ≠ []) (there : ∀ text ∈ texts ++ more, text ≠ "") :
    spaced (texts ++ more) =
      spaced texts ++ gap (spaced texts) (spaced more) ++ spaced more := by
  obtain ⟨first, more, rfl⟩ := List.exists_cons_of_ne_nil others
  have firstThere : first ≠ "" := there first (by simp)
  induction texts with
  | nil => exact absurd rfl some
  | cons text rest ih =>
      cases rest with
      | nil =>
          rw [gap_spaced _ more firstThere]
          rfl
      | cons next rest =>
          have nextThere : next ≠ "" := there next (by simp)
          have joined := ih (List.cons_ne_nil next rest)
            fun other member => there other (.tail _ member)
          rw [spaced, gap_append_left _ _ (spaced_ne_empty rest nextThere),
            List.cons_append, List.cons_append, spaced, ← List.cons_append,
            joined]
          simp only [String.append_assoc]

private theorem Decimal.plain_ne_empty (decimal : Decimal) :
    decimal.plain ≠ "" := by
  have digits : Nat.toDigits 10 decimal.digits ≠ [] := Nat.toDigits_ne_nil
  have whole : decimal.split.1 ≠ "" := by
    unfold Decimal.split
    dsimp only
    split
    · simp [digits]
    · split
      · simp [digits]
        omega
      · simp
  unfold Decimal.plain
  dsimp only
  split
  · exact whole
  · simp [whole]

theorem Int.repr_ne_empty (number : Int) : number.repr ≠ "" := by
  rw [Int.repr_eq_if]
  split
  · exact Nat.repr_ne_empty
  · simp

namespace Value

private theorem floatText_ne_empty (number : Double) :
    floatText number ≠ "" := by
  have signed (negative : Bool) {text : String} (there : text ≠ "") :
      (if negative then "-" ++ text else text) ≠ "" := by
    split
    · simp
    · exact there
  have plain : number.plain ≠ "" := by
    unfold Double.plain BinaryFormat.write
    dsimp only
    split
    · simp
    · exact signed _ (by simp)
    · exact signed _ (Decimal.plain_ne_empty _)
  unfold floatText
  split
  · split
    · exact Int.repr_ne_empty _
    · exact plain
  · exact plain

/-- A truthy value is shown as some text. -/
theorem domString_ne_empty {value : Value} (truthy : value.isTruthy = true) :
    value.domString ≠ "" := by
  cases value with
  | undefined => simp [domString]
  | null => simp [domString]
  | bool flag => cases flag <;> simp [domString]
  | int number => exact Int.repr_ne_empty _
  | float number => exact floatText_ne_empty number
  | text content => simpa [isTruthy, isFalsy, domString] using truthy

/-- Equal values and any two falsy ones. -/
def Matches (left right : Value) : Prop :=
  left = right ∨ left.isFalsy = true ∧ right.isFalsy = true

namespace Matches

variable {left middle right : Value}

theorem refl (value : Value) : value.Matches value := by
  exact .inl rfl

theorem symm (same : left.Matches right) : right.Matches left :=
  same.imp Eq.symm And.symm

theorem trans (first : left.Matches middle) (second : middle.Matches right) :
    left.Matches right := by
  rcases first with rfl | ⟨leftFalsy, middleFalsy⟩
  · exact second
  · rcases second with rfl | ⟨_, rightFalsy⟩
    · exact .inr ⟨leftFalsy, middleFalsy⟩
    · exact .inr ⟨leftFalsy, rightFalsy⟩

theorem isFalsy_eq (same : left.Matches right) :
    left.isFalsy = right.isFalsy := by
  rcases same with rfl | ⟨leftFalsy, rightFalsy⟩
  · rfl
  · rw [leftFalsy, rightFalsy]

theorem eq_of_truthy (same : left.Matches right)
    (truthy : right.isTruthy = true) : left = right := by
  exact same.resolve_right fun both => by simp [isTruthy, both.2] at truthy

end Matches

/-- Truthy values that stand next to each other. -/
def joined : List Value → Value
  | [] => .undefined
  | [value] => value
  | values => .text (spaced (values.map domString))

/-- Each of some values is truthy. -/
abbrev AreTruthy (values : List Value) : Prop :=
  ∀ value ∈ values, value.isTruthy = true

theorem domStrings_ne_empty {values : List Value} (truthy : AreTruthy values) :
    ∀ text ∈ values.map domString, text ≠ "" := by
  intro text member
  obtain ⟨value, inside, rfl⟩ := List.mem_map.mp member
  exact domString_ne_empty (truthy value inside)

theorem domString_joined {values : List Value} (some : values ≠ []) :
    (joined values).domString = spaced (values.map domString) := by
  match values with
  | [] => exact absurd rfl some
  | [value] => rfl
  | value :: next :: rest => rfl

theorem isFalsy_joined {values : List Value} (truthy : AreTruthy values) :
    (joined values).isFalsy = values.isEmpty := by
  match values with
  | [] => rfl
  | [value] => simpa [isTruthy, joined] using truthy value (.head _)
  | value :: next :: rest =>
      have there := domString_ne_empty (truthy value (.head _))
      simpa [joined, isFalsy] using
        spaced_ne_empty (next.domString :: rest.map domString) there

/-- Joining what two groups of values come to is the same as putting the groups
next to each other. -/
theorem joinValues_joined {values more : List Value}
    (truthy : AreTruthy values) (others : AreTruthy more) {left right : Value}
    (ahead : left.Matches (joined values))
    (behind : right.Matches (joined more)) :
    (joinValues left right).Matches (joined (values ++ more)) := by
  have leftFalsy := ahead.isFalsy_eq.trans (isFalsy_joined truthy)
  have rightFalsy := behind.isFalsy_eq.trans (isFalsy_joined others)
  unfold joinValues
  by_cases noneBehind : more = []
  · rw [rightFalsy, noneBehind, List.append_nil]
    exact ahead
  · have someBehind : more.isEmpty = false := by simpa using noneBehind
    rw [rightFalsy, someBehind, leftFalsy, if_neg Bool.false_ne_true]
    by_cases noneAhead : values = []
    · rw [noneAhead]
      exact behind
    · have someAhead : values.isEmpty = false := by simpa using noneAhead
      have leftEq := ahead.eq_of_truthy
        (by rw [isTruthy, isFalsy_joined truthy, someAhead]; rfl)
      have rightEq := behind.eq_of_truthy
        (by rw [isTruthy, isFalsy_joined others, someBehind]; rfl)
      have several : joined (values ++ more) =
          .text (spaced ((values ++ more).map domString)) := by
        match values, more, noneAhead, noneBehind with
        | [first], second :: rest, _, _ => rfl
        | first :: second :: rest, _, _, _ => rfl
      have texts : ∀ text ∈ values.map domString ++ more.map domString,
          text ≠ "" := by
        intro text member
        rcases List.mem_append.mp member with early | late
        · exact domStrings_ne_empty truthy text early
        · exact domStrings_ne_empty others text late
      rw [someAhead, if_neg Bool.false_ne_true, several, List.map_append,
        spaced_append (by simpa using noneAhead) (by simpa using noneBehind)
          texts, leftEq, rightEq, domString_joined noneAhead,
        domString_joined noneBehind, gap]
      dsimp only
      left
      split
      · rw [String.append_empty]
      · rfl

end Value

mutual

/-- The values of the fixed chunks and bindings in a chunk, with the schemas of
namespaces in their place. -/
def Chunk.values (host : Host σ) (world : World σ) (node : NodeId) :
    Chunk → List Value
  | .fixed value => [value]
  | .bound binding => [(binding.evaluate host node).result world]
  | .namespaced _ chunks => valuesAny host world node chunks
  | .styles _ => []

def valuesAny (host : Host σ) (world : World σ) (node : NodeId) :
    List Chunk → List Value
  | [] => []
  | chunk :: chunks =>
      chunk.values host world node ++ valuesAny host world node chunks

end

/-- The truthy ones among the values in a schema. -/
def truthyValues (host : Host σ) (world : World σ) (node : NodeId)
    (chunks : List Chunk) : List Value :=
  (valuesAny host world node chunks).filter Value.isTruthy

section Schemas

variable {host : Host σ} {world : World σ} {node : NodeId}

private theorem truthyValues_cons (chunk : Chunk) (chunks : List Chunk) :
    truthyValues host world node (chunk :: chunks) =
      (chunk.values host world node).filter Value.isTruthy ++
        truthyValues host world node chunks := by
  rw [truthyValues, valuesAny, List.filter_append, truthyValues]

theorem areTruthy_filter (values : List Value) :
    Value.AreTruthy (values.filter Value.isTruthy) := by
  intro _ member
  exact (List.mem_filter.mp member).2

theorem areTruthy_nil : Value.AreTruthy [] := by
  intro _ member
  exact (List.not_mem_nil member).elim

theorem valuesAny_append (chunks more : List Chunk) :
    valuesAny host world node (chunks ++ more) =
      valuesAny host world node chunks ++ valuesAny host world node more := by
  induction chunks with
  | nil => rfl
  | cons chunk rest ih =>
      rw [List.cons_append, valuesAny, valuesAny, ih, List.append_assoc]

mutual

/-- Putting schemas in the place of their namespaces leaves the values. -/
theorem Chunk.valuesAny_flatten (chunk : Chunk) :
    valuesAny host world node chunk.flatten = chunk.values host world node := by
  cases chunk with
  | fixed value => rfl
  | bound binding => rfl
  | namespaced namespaceName chunks =>
      rw [Chunk.flatten, Chunk.values]
      exact valuesAny_flattenChunks chunks
  | styles properties => rfl

theorem valuesAny_flattenChunks (chunks : List Chunk) :
    valuesAny host world node (flattenChunks chunks) =
      valuesAny host world node chunks := by
  cases chunks with
  | nil => rfl
  | cons chunk rest =>
      rw [flattenChunks, valuesAny_append, valuesAny,
        Chunk.valuesAny_flatten chunk, valuesAny_flattenChunks rest]

end

mutual

/-- Putting schemas in the place of their namespaces leaves the bindings. -/
theorem Chunk.inputsAny_flatten (chunk : Chunk) :
    inputsAny chunk.flatten = chunk.inputs := by
  cases chunk with
  | fixed value => rfl
  | bound binding => rfl
  | namespaced namespaceName chunks =>
      rw [Chunk.flatten, Chunk.inputs]
      exact inputsAny_flattenChunks chunks
  | styles properties => rfl

theorem inputsAny_flattenChunks (chunks : List Chunk) :
    inputsAny (flattenChunks chunks) = inputsAny chunks := by
  cases chunks with
  | nil => rfl
  | cons chunk rest =>
      rw [flattenChunks, inputsAny_append, inputsAny,
        Chunk.inputsAny_flatten chunk, inputsAny_flattenChunks rest]

end

/-- A lone value that is falsy counts for nothing. -/
theorem matches_joined_singleton (value : Value) :
    value.Matches (Value.joined ([value].filter Value.isTruthy)) := by
  cases truthy : value.isTruthy with
  | true => simp [truthy, Value.joined, Value.Matches]
  | false =>
      rw [List.filter_cons_of_neg (by simp [truthy])]
      exact .inr ⟨by simpa [Value.isTruthy] using truthy, rfl⟩

/-- A binding on its own is what it is among others. -/
theorem matches_of_loneChoice? {chunks : List Chunk} {binding : Binding}
    (found : loneChoice? chunks = some binding) :
    ((binding.evaluate host node).result world).Matches
      (Value.joined (truthyValues host world node chunks)) := by
  rw [loneChoice?_eq_some found]
  exact matches_joined_singleton _

mutual

theorem Chunk.matches_evaluate (chunk : Chunk)
    (isPure : ∀ binding ∈ chunk.inputs, binding.IsPure host) :
    ((chunk.evaluate host node).result world).Matches
      (Value.joined ((chunk.values host world node).filter
        Value.isTruthy)) := by
  cases chunk with
  | fixed value => exact matches_joined_singleton value
  | bound binding => exact matches_joined_singleton _
  | namespaced namespaceName chunks =>
      rw [Chunk.inputs] at isPure
      rw [Chunk.evaluate, Chunk.values]
      cases lone : loneChoice? chunks with
      | some binding => exact matches_of_loneChoice? lone
      | none => exact matches_joinChunks chunks isPure areTruthy_nil (.refl _)
  | styles properties => exact .refl _

theorem matches_joinChunks (chunks : List Chunk)
    (isPure : ∀ binding ∈ inputsAny chunks, binding.IsPure host)
    {value : Value} {values : List Value} (truthy : Value.AreTruthy values)
    (sofar : value.Matches (Value.joined values)) :
    ((joinChunks host node chunks value).result world).Matches
      (Value.joined (values ++ truthyValues host world node chunks)) := by
  cases chunks with
  | nil =>
      have none : truthyValues host world node [] = [] := rfl
      rw [none, List.append_nil]
      exact sofar
  | cons chunk rest =>
      simp only [inputsAny, List.mem_append] at isPure
      have here := fun binding member => isPure binding (.inl member)
      have unchanged := Chunk.after_evaluate node world chunk here
      have head : ((chunk.evaluate host node).result world).Matches _ :=
        Chunk.matches_evaluate chunk here
      simp only [joinChunks, Act.result_bind, unchanged]
      rw [truthyValues_cons, ← List.append_assoc]
      refine matches_joinChunks rest
        (fun binding member => isPure binding (.inr member))
        (fun value member => ?_)
        (Value.joinValues_joined truthy (areTruthy_filter _) sofar head)
      rcases List.mem_append.mp member with before | here
      · exact truthy value before
      · exact areTruthy_filter _ value here

end

theorem matches_evaluate {chunks : List Chunk}
    (isPure : ∀ binding ∈ inputsAny chunks, binding.IsPure host) :
    ((evaluate host node chunks).result world).Matches
      (Value.joined (truthyValues host world node chunks)) := by
  unfold evaluate
  cases lone : loneChoice? chunks with
  | some binding => exact matches_of_loneChoice? lone
  | none => exact matches_joinChunks chunks isPure areTruthy_nil (.refl _)

/-- What a schema comes to in closed form.  It is falsy exactly if none of the
values in it is truthy, and otherwise the truthy ones in order are shown next to
each other, with a space where neither neighbour brings a blank.  Putting
schemas in the place of their namespaces, or joining without regard to a lone
choice, makes no difference but for which falsy value stands for nothing. -/
theorem evaluate_joins_truthy {chunks : List Chunk}
    (isPure : ∀ binding ∈ inputsAny chunks, binding.IsPure host) :
    let values := truthyValues host world node chunks
    let value := (evaluate host node chunks).result world
    (value.isFalsy = true ↔ values = []) ∧
      (values ≠ [] → value.domString = spaced (values.map Value.domString)) ∧
      ((evaluate host node (flattenChunks chunks)).result world).Matches
        value ∧
      ((joinChunks host node chunks .undefined).result world).Matches
        value := by
  intro values value
  have truthy : Value.AreTruthy values := areTruthy_filter _
  have same : value.Matches (Value.joined values) := matches_evaluate isPure
  refine ⟨?_, fun some => ?_, ?_, ?_⟩
  · rw [same.isFalsy_eq, Value.isFalsy_joined truthy, List.isEmpty_iff]
  · have shown : (Value.joined values).isTruthy = true := by
      rw [Value.isTruthy, Value.isFalsy_joined truthy]
      simpa using some
    rw [same.eq_of_truthy shown, Value.domString_joined some]
  · have flat : Value.Matches _ (Value.joined (truthyValues host world node
        (flattenChunks chunks))) :=
      matches_evaluate (by rwa [inputsAny_flattenChunks])
    rw [truthyValues, valuesAny_flattenChunks] at flat
    exact flat.trans same.symm
  · exact (matches_joinChunks chunks isPure areTruthy_nil (.refl _)).trans
      same.symm

end Schemas

namespace Label

/-- A client that puts a blank behind every value. -/
def client : Host Unit where
  keeps _ := []
  notice _ _ := pure ()
  event _ _ := pure ()
  transform _ value _ := pure (.text (value.domString ++ " "))
  destroy _ := pure ()

def size : Binding := ⟨⟨0⟩, ⟨0⟩, "size", .value, some ⟨0⟩⟩

def hidden : Binding := ⟨⟨0⟩, ⟨0⟩, "hidden", .choose .null, none⟩

/-- A label with what is in namespaces of namespaces. -/
def schema : Schema :=
  [.fixed (.text "size"), .fixed .null,
    .namespaced "metric" [.bound size, .namespaced "state" [.bound hidden]],
    .fixed (.int 3), .fixed (.text "")]

def start : World Unit :=
  { World.initial () with
    properties := ⟨#[[("size", .int 7), ("hidden", .bool false)]]⟩ }

theorem isPure : ∀ binding ∈ inputsAny schema, binding.IsPure client :=
  fun _ _ _ _ _ _ _ => rfl

/-- The value of the choice is not shown, and what has a blank behind it gets
no other one. -/
theorem evaluate_joins_label :
    (∀ binding ∈ inputsAny schema, binding.IsPure client) ∧
      ((evaluate client ⟨0⟩ schema).result start).domString =
        "size 7 3" := by
  have shown : truthyValues client start ⟨0⟩ schema ≠ [] → _ :=
    (evaluate_joins_truthy isPure).2.1
  exact ⟨isPure, (shown (by decide +kernel)).trans (by decide +kernel)⟩

end Label

end LiveTemplate
