/-!
# Blank characters

A character is blank when it has the property `White_Space`.  `trimBlank`
strips blanks from both ends of a text and `trimBlankEnd` from its end only.
The narrower class of ASCII blanks separates class names and the parts of a
selector.
-/

namespace LiveTemplate

/-- The characters with the property `White_Space`. -/
def isBlank (c : Char) : Bool :=
  let code := c.toNat
  (0x9 ≤ code && code ≤ 0xD) || code == 0x20 || code == 0x85 ||
    code == 0xA0 || code == 0x1680 || (0x2000 ≤ code && code ≤ 0x200A) ||
    code == 0x2028 || code == 0x2029 || code == 0x202F || code == 0x205F ||
    code == 0x3000

/-- Space, tab, line feed, form feed and carriage return. -/
def isAsciiBlank (c : Char) : Bool :=
  c == ' ' || c == '\t' || c == '\n' || c == '\x0c' || c == '\r'

/-- Strip blanks from the end. -/
def trimBlankEnd (text : String) : String :=
  String.ofList (text.toList.reverse.dropWhile isBlank).reverse

/-- Strip blanks from both ends. -/
def trimBlank (text : String) : String :=
  String.ofList
    ((text.toList.dropWhile isBlank).reverse.dropWhile isBlank).reverse

def endsWithBlank (text : String) : Bool :=
  text.back?.any isBlank

def startsWithBlank (text : String) : Bool :=
  text.front?.any isBlank

/-- The maximal runs of characters that do not satisfy `separates`. -/
def wordsBy (separates : Char → Bool) : List Char → List (List Char)
  | [] => []
  | c :: rest =>
      if separates c then wordsBy separates rest
      else
        match rest with
        | [] => [[c]]
        | next :: _ =>
            if separates next then [c] :: wordsBy separates rest
            else
              match wordsBy separates rest with
              | [] => [[c]]
              | word :: words => (c :: word) :: words

/-- The words of a text that ASCII blanks separate. -/
def asciiWords (text : String) : List String :=
  (wordsBy isAsciiBlank text.toList).map String.ofList

end LiveTemplate
