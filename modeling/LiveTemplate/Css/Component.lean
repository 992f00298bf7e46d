import LiveTemplate.Css.Lexer

/-!
# Tokens grouped into blocks

A component is one token or a block: an opening token, what stands in it, and
the token that closes it.  A closing token that does not fit the innermost open
block is a component of its own, and a block left open ends with the text.
-/

namespace LiveTemplate.Css

inductive Component where
  | leaf (lexeme : Lexeme)
  | block (opener : Lexeme) (content : List Component) (closer : Option Lexeme)

namespace Component

/-- The token a component begins with. -/
def token : Component → Token
  | leaf lexeme => lexeme.token
  | block opener _ _ => opener.token

/-- What stands in a block. -/
def content : Component → List Component
  | leaf _ => []
  | block _ content _ => content

def isFiller (component : Component) : Bool :=
  component.token.isFiller

def isBlank (component : Component) : Bool :=
  match component.token with
  | .blank _ => true
  | _ => false

mutual

/-- A text, and after it the text a component was read from. -/
def appendTo (text : String) : Component → String
  | leaf lexeme => text ++ lexeme.source
  | block opener content closer =>
      let inner := appendAllTo (text ++ opener.source) content
      match closer with
      | some lexeme => inner ++ lexeme.source
      | none => inner

def appendAllTo (text : String) : List Component → String
  | [] => text
  | component :: rest => appendAllTo (component.appendTo text) rest

end

/-- The text a list of components was read from. -/
def sources (components : List Component) : String :=
  appendAllTo "" components

mutual

/-- How deeply blocks are nested in a component. -/
def depth : Component → Nat
  | leaf _ => 0
  | block _ content _ => depths content + 1

/-- How deeply blocks are nested in a list of components. -/
def depths : List Component → Nat
  | [] => 0
  | component :: rest => max component.depth (depths rest)

end

/-- An open block: its opening token and the components before it, the last
one first. -/
structure Frame where
  opener : Lexeme
  before : List Component

/-- Close all open blocks at the end of the text. -/
def unwind : List Frame → List Component → List Component
  | [], current => current.reverse
  | frame :: outer, current =>
      unwind outer (block frame.opener current.reverse none :: frame.before)

/-- Group lexemes, given the open blocks and the components read so far in the
innermost one, the last one first. -/
def group : List Lexeme → List Frame → List Component → List Component
  | [], frames, current => unwind frames current
  | lexeme :: rest, frames, current =>
      if lexeme.token.closer?.isSome then
        group rest (⟨lexeme, current⟩ :: frames) []
      else
        match frames with
        | [] => group rest [] (leaf lexeme :: current)
        | frame :: outer =>
            if frame.opener.token.closer? = some lexeme.token then
              let closed := block frame.opener current.reverse (some lexeme)
              group rest outer (closed :: frame.before)
            else group rest (frame :: outer) (leaf lexeme :: current)

/-- The components of a text. -/
def ofText (text : String) : List Component :=
  group (lexemes text) [] []

end Component

/-- The components between those that satisfy `separates`. -/
def splitComponents (separates : Component → Bool) :
    List Component → List (List Component)
  | [] => [[]]
  | component :: rest =>
      match splitComponents separates rest with
      | [] => [[component]]
      | segment :: segments =>
          if separates component then [] :: segment :: segments
          else (component :: segment) :: segments

end LiveTemplate.Css
