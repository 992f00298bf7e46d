import LiveTemplate.Dom.Basic
import LiveTemplate.Text.Quoted

/-!
# Trees and their markup

`Dom.tree` reads the tree below a node out of a document as a value, and
`Tree.markup` writes it.  Ampersands and no-break spaces are escaped
everywhere, angle brackets in text, double quotes in attribute values.
-/

namespace LiveTemplate

/-- A tree of nodes without identity. -/
inductive Tree where
  | element (namespaceName tag : String) (attributes : List Attribute)
      (children : List Tree)
  | text (data : String)
  | fragment (children : List Tree)

/-- Elements whose end tag is left out when they are empty. -/
def voidTags : List String :=
  ["area", "base", "br", "col", "embed", "hr", "img", "input", "link", "meta",
    "source", "track", "wbr"]

def escapeTextChar (c : Char) : String :=
  if c == '&' then "&amp;"
  else if c == '<' then "&lt;"
  else if c == '>' then "&gt;"
  else if c == '\u00A0' then "&nbsp;"
  else String.singleton c

def escapeAttributeChar (c : Char) : String :=
  if c == '&' then "&amp;"
  else if c == '"' then "&quot;"
  else if c == '\u00A0' then "&nbsp;"
  else String.singleton c

def escapeText (data : String) : String :=
  String.join (data.toList.map escapeTextChar)

def escapeAttribute (value : String) : String :=
  String.join (value.toList.map escapeAttributeChar)

def Attribute.markup (entry : Attribute) : String :=
  " " ++ entry.name ++ "=\"" ++ escapeAttribute entry.value ++ "\""

/-- The start tag of an element. -/
def startTag (tag : String) (attributes : List Attribute) : String :=
  "<" ++ tag ++ String.join (attributes.map Attribute.markup) ++ ">"

namespace Tree

def children : Tree → List Tree
  | element _ _ _ children => children
  | text _ => []
  | fragment children => children

mutual

def markup : Tree → String
  | element _ tag attributes children =>
      startTag tag attributes ++
        (if children.isEmpty && voidTags.contains tag then ""
        else markups children ++ "</" ++ tag ++ ">")
  | text data => escapeText data
  | fragment children => markups children

def markups : List Tree → String
  | [] => ""
  | tree :: rest => tree.markup ++ markups rest

end

mutual

/-- The data of all text in a tree, in order. -/
def textContent : Tree → String
  | element _ _ _ children => textContents children
  | text data => data
  | fragment children => textContents children

def textContents : List Tree → String
  | [] => ""
  | tree :: rest => tree.textContent ++ textContents rest

end

/-- The tree with a root of the given kind. -/
def ofKind (kind : NodeKind) (children : List Tree) : Tree :=
  match kind with
  | .element namespaceName tag attributes =>
      element namespaceName tag attributes children
  | .text data => text data
  | .fragment => fragment children

end Tree

namespace Dom

/-- The tree below a node, down to `fuel` generations. -/
def treeWithin (dom : Dom) : Nat → NodeId → Tree
  | 0, n => .ofKind (dom.kind n) []
  | fuel + 1, n =>
      .ofKind (dom.kind n) ((dom.children n).map (dom.treeWithin fuel))

/-- The tree below a node.  No path is longer than the number of nodes. -/
def tree (dom : Dom) (n : NodeId) : Tree :=
  dom.treeWithin dom.nodes.size n

def outerHtml (dom : Dom) (n : NodeId) : String :=
  (dom.tree n).markup

def innerHtml (dom : Dom) (n : NodeId) : String :=
  Tree.markups (dom.tree n).children

def textContent (dom : Dom) (n : NodeId) : String :=
  (dom.tree n).textContent

/-- A node by itself, for messages. -/
def describe (dom : Dom) (n : NodeId) : String :=
  match dom.kind n with
  | .element _ tag _ => "<" ++ tag ++ ">"
  | .text data => "#text " ++ quoted data
  | .fragment => "#document-fragment"

end Dom

end LiveTemplate
