import LiveTemplate.Css.Token
import LiveTemplate.Text.Blank

/-!
# Reading tokens

`lexemes` cuts a text into tokens.  Every token takes at least one character,
and the texts of the lexemes put together are the text that was read.  A
scanner takes the characters that remain and returns what it has read with the
number of characters it was read from.  Where an escape takes several
characters, a scanner passes over as many before it goes on.
-/

namespace LiveTemplate.Css

/-- What stands for a character that cannot be. -/
def replacement : Char := '\uFFFD'

def isNewline (c : Char) : Bool :=
  c == '\n' || c == '\r' || c == '\x0c'

def isHexDigit (c : Char) : Bool :=
  c.isDigit || ('a' ≤ c && c ≤ 'f') || ('A' ≤ c && c ≤ 'F')

def hexValue (c : Char) : Nat :=
  if c.isDigit then c.toNat - 48
  else if 'a' ≤ c then c.toNat - 87
  else c.toNat - 55

/-- Letters, the underscore, the null character and everything beyond ASCII
begin a name. -/
def isNameStart (c : Char) : Bool :=
  c.isAlpha || c == '_' || c == '\x00' || c.toNat ≥ 0x80

def isNameChar (c : Char) : Bool :=
  isNameStart c || c.isDigit || c == '-'

def startsWithNewline : List Char → Bool
  | c :: _ => isNewline c
  | [] => false

def startsWithDigit : List Char → Bool
  | c :: _ => c.isDigit
  | [] => false

/-- The length of one line end; a carriage return and a line feed together are
one. -/
def newlineLength : List Char → Nat
  | '\r' :: '\n' :: _ => 2
  | _ :: _ => 1
  | [] => 0

/-- The length of the one blank that may end a numeric escape. -/
def escapeEndLength (input : List Char) : Nat :=
  match input with
  | c :: _ =>
      if isNewline c then newlineLength input
      else if c == ' ' || c == '\t' then 1
      else 0
  | [] => 0

/-- The character with a number, unless no text may hold it. -/
def characterOf (code : Nat) : Char :=
  if code ≠ 0 ∧ code.isValidChar then Char.ofNat code else replacement

/-- Read what follows a backslash. -/
def scanEscape (input : List Char) : Char × Nat :=
  match input with
  | [] => (replacement, 0)
  | c :: _ =>
      if isHexDigit c then
        let digits := (input.take 6).takeWhile isHexDigit
        let code := digits.foldl (fun code d => code * 16 + hexValue d) 0
        (characterOf code,
          digits.length + escapeEndLength (input.drop digits.length))
      else if c == '\x00' then (replacement, 1)
      else (c, 1)

/-- Read a name after passing over `skip` characters. -/
def scanNameFrom : Nat → List Char → List Char × Nat
  | _, [] => ([], 0)
  | skip + 1, _ :: rest =>
      let (name, length) := scanNameFrom skip rest
      (name, length + 1)
  | 0, c :: rest =>
      if c == '\\' then
        if startsWithNewline rest then ([], 0)
        else
          let (escaped, taken) := scanEscape rest
          let (name, length) := scanNameFrom taken rest
          (escaped :: name, length + 1)
      else if isNameChar c then
        let (name, length) := scanNameFrom 0 rest
        ((if c == '\x00' then replacement else c) :: name, length + 1)
      else ([], 0)

def scanName (input : List Char) : String × Nat :=
  let (name, length) := scanNameFrom 0 input
  (String.ofList name, length)

/-- Whether a name begins here. -/
def startsName : List Char → Bool
  | '-' :: c :: _ => isNameStart c || c == '-' || c == '\\'
  | '\\' :: rest => !startsWithNewline rest
  | c :: _ => isNameStart c
  | [] => false

/-- Read a string that `quote` ends, after passing over `skip` characters.  The
flag tells whether a line end broke it off. -/
def scanStringFrom (quote : Char) : Nat → List Char → List Char × Bool × Nat
  | _, [] => ([], false, 0)
  | skip + 1, _ :: rest =>
      let (content, broken, length) := scanStringFrom quote skip rest
      (content, broken, length + 1)
  | 0, c :: rest =>
      if c == quote then ([], false, 1)
      else if isNewline c then ([], true, 0)
      else if c == '\\' then
        if rest.isEmpty then ([], false, 1)
        else if startsWithNewline rest then
          let (content, broken, length) :=
            scanStringFrom quote (newlineLength rest) rest
          (content, broken, length + 1)
        else
          let (escaped, taken) := scanEscape rest
          let (content, broken, length) := scanStringFrom quote taken rest
          (escaped :: content, broken, length + 1)
      else
        let (content, broken, length) := scanStringFrom quote 0 rest
        ((if c == '\x00' then replacement else c) :: content, broken,
          length + 1)

def scanString (quote : Char) (input : List Char) : Token × Nat :=
  let (content, broken, length) := scanStringFrom quote 0 input
  let text := String.ofList content
  (if broken then .badString text else .quotedString text, length)

/-- The digits at the front. -/
def scanDigits (input : List Char) : List Nat :=
  (input.takeWhile Char.isDigit).map (fun c => c.toNat - 48)

/-- Whether there is a sign at the front, and whether it is a minus. -/
def scanSign : List Char → Bool × Bool
  | '-' :: _ => (true, true)
  | '+' :: _ => (true, false)
  | _ => (false, false)

/-- The digits after a decimal point, if there are any. -/
def scanFraction : List Char → Option (List Nat) × Nat
  | '.' :: rest =>
      if startsWithDigit rest then
        let digits := scanDigits rest
        (some digits, digits.length + 1)
      else (none, 0)
  | _ => (none, 0)

/-- An exponent with its sign, if there is one. -/
def scanExponent (input : List Char) : Option (Bool × List Nat) × Nat :=
  match input with
  | c :: rest =>
      if c == 'e' || c == 'E' then
        let (signed, negative) := scanSign rest
        let unsigned := rest.drop signed.toNat
        if startsWithDigit unsigned then
          let digits := scanDigits unsigned
          (some (negative, digits), digits.length + signed.toNat + 1)
        else (none, 0)
      else (none, 0)
  | [] => (none, 0)

/-- Digits read as an integer, in floating point. -/
def floatOfDigits (digits : List Nat) : Float :=
  digits.foldl (fun sum digit => sum * 10 + Float.ofNat digit) 0

/-- Digits read as places after the point, in floating point. -/
def floatOfPlaces (digits : List Nat) : Float :=
  (digits.foldl
    (fun (sum, factor) digit =>
      (sum + Float.ofNat digit * factor, factor * 0.1))
    ((0 : Float), (0.1 : Float))).1

/-- The nearest 32-bit integer. -/
def clampInt32 (number : Int) : Int :=
  max (-2147483648) (min 2147483647 number)

/-- Read a number with its unit or percent sign. -/
def scanNumeric (input : List Char) : Token × Nat :=
  let (signed, negative) := scanSign input
  let unsigned := input.drop signed.toNat
  let integral := scanDigits unsigned
  let afterIntegral := unsigned.drop integral.length
  let (fraction, fractionLength) := scanFraction afterIntegral
  let afterFraction := afterIntegral.drop fractionLength
  let (exponent, exponentLength) := scanExponent afterFraction
  let rest := afterFraction.drop exponentLength
  let length :=
    signed.toNat + integral.length + fractionLength + exponentLength
  let sign : Float := if negative then -1 else 1
  let unscaled :=
    sign * (floatOfDigits integral + floatOfPlaces (fraction.getD []))
  let value :=
    match exponent with
    | none => unscaled
    | some (negative, digits) =>
        let sign : Float := if negative then -1 else 1
        unscaled * Float.pow 10 (sign * floatOfDigits digits)
  let magnitude : Nat := integral.foldl (fun sum digit => sum * 10 + digit) 0
  let integer :=
    if fraction.isNone && exponent.isNone then
      some (clampInt32 (if negative then -(magnitude : Int) else magnitude))
    else none
  let numeral (value : Float) : Numeral :=
    ⟨signed, value.toFloat32.toBits, integer⟩
  match rest with
  | '%' :: _ => (.percentage (numeral (value / 100)), length + 1)
  | _ =>
      if startsName rest then
        let (unit, unitLength) := scanName rest
        (.dimension (numeral value) unit, length + unitLength)
      else (.number (numeral value), length)

/-- Characters that may not stand unescaped in an unquoted url. -/
def breaksUrl (c : Char) : Bool :=
  let code := c.toNat
  (1 ≤ code && code ≤ 8) || code == 0xB || (0xE ≤ code && code ≤ 0x1F) ||
    code == 0x7F || c == '"' || c == '\'' || c == '('

/-- Skip to the end of a broken url; an escaped parenthesis does not end it.
The characters passed over come first. -/
def scanBadUrl : List Char → List Char × Nat
  | [] => ([], 0)
  | ')' :: _ => ([], 1)
  | '\\' :: ')' :: rest =>
      let (skipped, length) := scanBadUrl rest
      ('\\' :: ')' :: skipped, length + 2)
  | '\\' :: '\\' :: rest =>
      let (skipped, length) := scanBadUrl rest
      ('\\' :: '\\' :: skipped, length + 2)
  | c :: rest =>
      let (skipped, length) := scanBadUrl rest
      (c :: skipped, length + 1)

/-- What an unquoted url was read from, and whether it was broken off there. -/
structure UrlEnd where
  broken : Bool
  length : Nat

/-- Count one more character. -/
def UrlEnd.next (urlEnd : UrlEnd) : UrlEnd :=
  { urlEnd with length := urlEnd.length + 1 }

/-- After a blank only blanks may precede the closing parenthesis. -/
def scanUrlEnd : List Char → UrlEnd
  | [] => ⟨false, 0⟩
  | ')' :: _ => ⟨false, 1⟩
  | c :: rest => if isAsciiBlank c then (scanUrlEnd rest).next else ⟨true, 1⟩

/-- Read an unquoted url after passing over `skip` characters. -/
def scanUrlFrom : Nat → List Char → List Char × UrlEnd
  | _, [] => ([], ⟨false, 0⟩)
  | skip + 1, _ :: rest =>
      let (content, urlEnd) := scanUrlFrom skip rest
      (content, urlEnd.next)
  | 0, c :: rest =>
      if c == ')' then ([], ⟨false, 1⟩)
      else if isAsciiBlank c then ([], (scanUrlEnd rest).next)
      else if breaksUrl c then ([], ⟨true, 1⟩)
      else if c == '\\' then
        if startsWithNewline rest then ([], ⟨true, 1⟩)
        else
          let (escaped, taken) := scanEscape rest
          let (content, urlEnd) := scanUrlFrom taken rest
          (escaped :: content, urlEnd.next)
      else
        let (content, urlEnd) := scanUrlFrom 0 rest
        ((if c == '\x00' then replacement else c) :: content, urlEnd.next)

/-- Read a url after its opening parenthesis.  A broken one is known by its
source text. -/
def scanUrl (input : List Char) : Token × Nat :=
  let (content, urlEnd) := scanUrlFrom 0 input
  if urlEnd.broken then
    let (skipped, length) := scanBadUrl (input.drop urlEnd.length)
    (.badUrl (String.ofList (input.take urlEnd.length ++ skipped)),
      urlEnd.length + length)
  else (.unquotedUrl (String.ofList content), urlEnd.length)

def isQuote (c : Char) : Bool :=
  c == '"' || c == '\''

/-- Read a name and what makes it a function or a url. -/
def scanIdentLike (input : List Char) : Token × Nat :=
  let (name, length) := scanName input
  match input.drop length with
  | '(' :: rest =>
      let blanks := (rest.takeWhile isAsciiBlank).length
      let content := rest.drop blanks
      if name.toLower == "url" && !(content.head?.any isQuote) then
        let (token, contentLength) := scanUrl content
        (token, length + 1 + blanks + contentLength)
      else (.function name, length + 1)
  | _ => (.ident name, length)

/-- Read a comment after its opening. -/
def scanComment : List Char → List Char × Nat
  | [] => ([], 0)
  | '*' :: '/' :: _ => ([], 2)
  | c :: rest =>
      let (content, length) := scanComment rest
      (c :: content, length + 1)

/-- Whether a number begins here. -/
def startsNumber : List Char → Bool
  | '+' :: '.' :: rest => startsWithDigit rest
  | '-' :: '.' :: rest => startsWithDigit rest
  | '+' :: rest => startsWithDigit rest
  | '-' :: rest => startsWithDigit rest
  | '.' :: rest => startsWithDigit rest
  | input => startsWithDigit input

/-- Read a token that begins with a number sign or an at sign. -/
def scanSigil (symbol : Char) (rest : List Char) : Token × Nat :=
  if startsName rest then
    let (name, length) := scanName rest
    (if symbol == '#' then .idHash name else .atKeyword name, length + 1)
  else if symbol == '#' && (startsWithDigit rest || rest.head? == some '-') then
    let (name, length) := scanName rest
    (.hash name, length + 1)
  else (.delim symbol, 1)

/-- Read a token made of fixed characters. -/
def scanPunctuation? : List Char → Option (Token × Nat)
  | '$' :: '=' :: _ => some (.endMatch, 2)
  | '*' :: '=' :: _ => some (.substringMatch, 2)
  | '^' :: '=' :: _ => some (.startMatch, 2)
  | '|' :: '=' :: _ => some (.dashMatch, 2)
  | '~' :: '=' :: _ => some (.includeMatch, 2)
  | '-' :: '-' :: '>' :: _ => some (.commentClose, 3)
  | '<' :: '!' :: '-' :: '-' :: _ => some (.commentOpen, 4)
  | ':' :: _ => some (.colon, 1)
  | ';' :: _ => some (.semicolon, 1)
  | ',' :: _ => some (.comma, 1)
  | '(' :: _ => some (.parenOpen, 1)
  | ')' :: _ => some (.parenClose, 1)
  | '[' :: _ => some (.bracketOpen, 1)
  | ']' :: _ => some (.bracketClose, 1)
  | '\x7b' :: _ => some (.braceOpen, 1)
  | '\x7d' :: _ => some (.braceClose, 1)
  | _ => none

/-- Read the token that begins with `c`. -/
def scanToken (c : Char) (rest : List Char) : Token × Nat :=
  let input := c :: rest
  if isAsciiBlank c then
    let blanks := input.takeWhile isAsciiBlank
    (.blank (String.ofList blanks), blanks.length)
  else if isQuote c then
    let (token, length) := scanString c rest
    (token, length + 1)
  else if c == '#' || c == '@' then scanSigil c rest
  else if startsNumber input then scanNumeric input
  else
    match scanPunctuation? input with
    | some found => found
    | none =>
        match input with
        | '/' :: '*' :: after =>
            let (content, length) := scanComment after
            (.comment (String.ofList content), length + 2)
        | _ =>
            if startsName input then scanIdentLike input
            else (.delim c, 1)

/-- The lexemes after passing over `skip` characters. -/
def lexemesFrom : Nat → List Char → List Lexeme
  | _, [] => []
  | skip + 1, _ :: rest => lexemesFrom skip rest
  | 0, c :: rest =>
      let (token, length) := scanToken c rest
      ⟨token, String.ofList (c :: rest.take (length - 1))⟩ ::
        lexemesFrom (length - 1) rest

/-- The lexemes of a text. -/
def lexemes (text : String) : List Lexeme :=
  lexemesFrom 0 text.toList

end LiveTemplate.Css
