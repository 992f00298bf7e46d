import LiveTemplate.Css.Component

/-!
# Inline style declarations

The value of a `style` attribute as an ordered list of properties.  Reading
keeps the source text of each value, passes over what is not a declaration, and
lets a later declaration replace the value of an earlier one in its place.
-/

namespace LiveTemplate.Css

/-- Properties with their values, in order. -/
structure Declarations where
  entries : List (String × String)
  deriving DecidableEq, Repr

namespace Declarations

def empty : Declarations := ⟨[]⟩

def get? (declarations : Declarations) (property : String) : Option String :=
  declarations.entries.lookup property

def size (declarations : Declarations) : Nat :=
  declarations.entries.length

def isEmpty (declarations : Declarations) : Bool :=
  declarations.entries.isEmpty

/-- Replace the first entry of a property, or append one. -/
def setEntry (property value : String) :
    List (String × String) → List (String × String)
  | [] => [(property, value)]
  | (name, old) :: rest =>
      if name == property then (name, value) :: rest
      else (name, old) :: setEntry property value rest

def set (declarations : Declarations) (property value : String) :
    Declarations :=
  ⟨setEntry property value declarations.entries⟩

def remove (declarations : Declarations) (property : String) : Declarations :=
  ⟨declarations.entries.filter (fun entry => entry.1 != property)⟩

def contains (declarations : Declarations) (property : String) : Bool :=
  declarations.entries.any (fun entry => entry.1 == property)

/-- Each declaration ends with a semicolon; a space separates two. -/
def render (declarations : Declarations) : String :=
  String.intercalate " "
    (declarations.entries.map fun (property, value) =>
      property ++ ": " ++ value ++ ";")

/-- Drop filler and at-rules from the front of a statement.  An at-rule goes
on to its block of braces. -/
def statement (inAtRule : Bool) : List Component → List Component
  | [] => []
  | component :: rest =>
      if inAtRule then statement (component.token != .braceOpen) rest
      else if component.isFiller then statement false rest
      else
        match component.token with
        | .atKeyword _ => statement true rest
        | _ => component :: rest

/-- The declaration between two semicolons: a name, a colon and a value that
is not blank. -/
def declaration? (segment : List Component) : Option (String × String) :=
  match statement false segment with
  | [] => none
  | component :: rest =>
      match component.token, rest.dropWhile Component.isFiller with
      | .ident name, separator :: value =>
          let text := trimBlank (Component.sources value)
          if separator.token = .colon ∧ ¬ text.isEmpty then some (name, text)
          else none
      | _, _ => none

/-- The declarations of a text one by one, repeated properties included. -/
def written (style : String) : List (String × String) :=
  (splitComponents (fun component => component.token == .semicolon)
    (Component.ofText style)).filterMap declaration?

/-- The declarations of a text. -/
def parse (style : String) : Declarations :=
  (written style).foldl
    (fun declarations entry => declarations.set entry.1 entry.2) empty

end Declarations

end LiveTemplate.Css
