import LiveTemplate.Number.Notation
import LiveTemplate.Text.Quoted

/-!
# Dynamic values

The values that properties hold and that templates write into a tree.  Only
`undefined`, `null`, `false` and the empty text are falsy: a bound zero is
still shown.
-/

namespace LiveTemplate

inductive Value where
  | undefined
  | null
  | bool (flag : Bool)
  | int (number : Int64)
  | float (number : Double)
  | text (content : String)
  deriving DecidableEq, Repr

namespace Value

instance : Inhabited Value := ⟨.undefined⟩

def isFalsy : Value → Bool
  | .undefined => true
  | .null => true
  | .bool flag => !flag
  | .int _ => false
  | .float _ => false
  | .text content => content.isEmpty

def isTruthy (value : Value) : Bool :=
  !value.isFalsy

/-- Equality within one kind of value; floating-point numbers compare as
numbers, so a NaN differs from itself and the zeros agree. -/
def agrees : Value → Value → Bool
  | .undefined, .undefined => true
  | .null, .null => true
  | .bool left, .bool right => left == right
  | .int left, .int right => left == right
  | .float left, .float right => left.agrees right
  | .text left, .text right => left == right
  | _, _ => false

/-- The text a document shows for a floating-point number: an integer of less
than sixteen digits is written as one, so negative zero loses its sign. -/
def floatText (number : Double) : String :=
  match number.integer? with
  | some integer =>
      if integer.natAbs < tenTo 15 then toString integer else number.plain
  | none => number.plain

/-- The text a document shows for a value. -/
def domString : Value → String
  | .undefined => "undefined"
  | .null => "null"
  | .bool flag => if flag then "true" else "false"
  | .int number => toString number.toInt
  | .float number => floatText number
  | .text content => content

def text? : Value → Option String
  | .text content => some content
  | _ => none

def bool? : Value → Option Bool
  | .bool flag => some flag
  | _ => none

/-- The nearest 64-bit integer. -/
def clampInt64 (number : Int) : Int64 :=
  Int64.ofInt
    (max (-9223372036854775808) (min 9223372036854775807 number))

/-- The integer a number is equal to, limited to 64 bits. -/
def int? : Value → Option Int64
  | .int number => some number
  | .float number => number.integer?.map clampInt64
  | _ => none

/-- An unsigned machine word read as a signed one. -/
def ofWord (word : UInt64) : Value :=
  .int word.toInt64

/-- An absent value is `null`. -/
def ofOption : Option Value → Value
  | none => .null
  | some value => value

/-- The structure of a value, spelled out. -/
def describe : Value → String
  | .undefined => "Undefined"
  | .null => "Null"
  | .bool flag => "Bool(" ++ (if flag then "true" else "false") ++ ")"
  | .int number => "Int(" ++ toString number.toInt ++ ")"
  | .float number => "Float(" ++ number.detailed ++ ")"
  | .text content => "Str(" ++ quoted content ++ ")"

end Value

end LiveTemplate
