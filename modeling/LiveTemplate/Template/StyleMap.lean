import LiveTemplate.Css.Declarations
import LiveTemplate.Template.Error
import LiveTemplate.Template.Schema

/-!
# Style maps

A `style` schema with a map of properties is rendered property by property.
Plain declarations beside the map are folded into it; bindings and namespaces
have no place there.
-/

namespace LiveTemplate

/-- Fold one chunk into a map, or say why it has no place there. -/
def foldStyle (map : StyleMap) : Chunk → Except DefinitionFault StyleMap
  | .styles properties =>
      .ok (properties.foldl
        (fun map (property, schema) => appendEntry property schema map) map)
  | .fixed value =>
      if value.isFalsy then .ok map
      else
        .ok ((Css.Declarations.parse value.domString).entries.foldl
          (fun map (property, text) =>
            appendEntry property [.fixed (.text text)] map) map)
  | .bound binding => .error (.boundStyle binding.property)
  | .namespaced _ _ => .error .namespacedStyle

def Chunk.isStyles : Chunk → Bool
  | .styles _ => true
  | _ => false

/-- The map of a `style` schema, if it is one. -/
def styleMap? (schema : Schema) : Option (Except DefinitionFault StyleMap) :=
  if schema.any Chunk.isStyles then some (schema.foldlM foldStyle [])
  else none

/-- The map that an attribute is rendered from, if it is a style with one. -/
def entryStyles? (name : String) (schema : Schema) :
    Option (Except DefinitionFault StyleMap) :=
  if name == "style" then styleMap? schema else none

end LiveTemplate
