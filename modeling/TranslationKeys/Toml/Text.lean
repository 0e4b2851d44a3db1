import TranslationKeys.Number.Integer

/-!
# Tokens of TOML

Blanks, comments, keys and strings. A reader takes characters from the front of a list and returns
what it read with the characters that are left. Line breaks are line feeds only; a carriage return
that stands alone is a control character like any other.
-/

namespace TranslationKeys.Toml

/-- Why a document cannot be read. -/
inductive Fault where
  /-- The document breaks a rule of the format. -/
  | malformed
  /-- An integer has too many digits. -/
  | numeralTooLong
  deriving DecidableEq, Repr

/-- A blank within a line. -/
def isSpace (c : Char) : Bool := c == ' ' || c == '\t'

/-- A control character that must not be written down; a tab may. -/
def isControl (c : Char) : Bool :=
  (c.toNat < 32 && c != '\t') || c.toNat == 127

/-- The rest of a line after its leading blanks. -/
def skipSpaces (cs : List Char) : List Char := cs.dropWhile isSpace

/-- What follows a comment, if there is one; the line break is not part of it. -/
def skipComment (cs : List Char) : Except Fault (List Char) :=
  match cs with
  | '#' :: rest =>
    let (comment, after) := rest.span (· != '\n')
    if comment.any isControl then .error .malformed else .ok after
  | cs => .ok cs

/-- What follows blanks, line breaks and comments, at most `fuel` times each. -/
def skipLayoutWithin : Nat → List Char → Except Fault (List Char)
  | 0, cs => .ok cs
  | fuel + 1, cs => do
    let after ← skipComment (cs.dropWhile fun c => isSpace c || c == '\n')
    if after.length == cs.length then return cs else skipLayoutWithin fuel after

/-- What follows blanks, line breaks and comments. -/
def skipLayout (cs : List Char) : Except Fault (List Char) :=
  skipLayoutWithin cs.length cs

/-- A character of a bare key. -/
def isBareKeyChar (c : Char) : Bool :=
  c.isAlphanum || c == '-' || c == '_'

/-- The character of an escape by number with the given count of digits. -/
def readHex (width : Nat) (cs : List Char) : Except Fault (Char × List Char) :=
  let digits := cs.take width
  let values := digits.filterMap (digitValue? 16)
  let n := Integer.ofDigits 16 values
  if values.length == width && n.isValidChar then .ok (Char.ofNat n, cs.drop width)
  else .error .malformed

/-- The escapes of one letter. -/
def simpleEscape? : Char → Option Char
  | 'b' => some (Char.ofNat 8)
  | 't' => some '\t'
  | 'n' => some '\n'
  | 'f' => some (Char.ofNat 12)
  | 'r' => some '\r'
  | '"' => some '"'
  | '\\' => some '\\'
  | _ => none

/-- What an escape stands for, given what follows its backslash. At the end of a line of a
multi-line string it stands for nothing and swallows the blanks that follow. -/
def readEscape (multiline : Bool) (cs : List Char) : Except Fault (List Char × List Char) :=
  let layout (cs : List Char) := cs.dropWhile fun c => isSpace c || c == '\n'
  match cs with
  | [] => .error .malformed
  | c :: rest =>
    if multiline && c == '\n' then .ok ([], layout rest)
    else if multiline && isSpace c then
      match skipSpaces rest with
      | [] => .ok ([], [])
      | d :: after => if d == '\n' then .ok ([], layout after) else .error .malformed
    else if c == 'u' then (readHex 4 rest).map fun r => ([r.1], r.2)
    else if c == 'U' then (readHex 8 rest).map fun r => ([r.1], r.2)
    else match simpleEscape? c with
      | some d => .ok ([d], rest)
      | none => .error .malformed

/-- Whether the next characters are the given ones. -/
def startsWith (text : String) (cs : List Char) : Bool :=
  text.toList.isPrefixOf cs

/-- The rest of a basic string, whose opening is read already. -/
def readBasicWithin (multiline : Bool) : Nat → List Char → Except Fault (List Char × List Char)
  | 0, _ => .error .malformed
  | _, [] => .error .malformed
  | fuel + 1, c :: cs =>
    if c == '"' then
      if !multiline then .ok ([], cs)
      else if startsWith "\"\"" cs then .ok ([], cs.drop 2)
      else (readBasicWithin multiline fuel cs).map fun r => (c :: r.1, r.2)
    else if c == '\\' then do
      let (out, after) ← readEscape multiline cs
      let (tail, after) ← readBasicWithin multiline fuel after
      return (out ++ tail, after)
    else if isControl c && !(multiline && c == '\n') then .error .malformed
    else (readBasicWithin multiline fuel cs).map fun r => (c :: r.1, r.2)

/-- The rest of a basic string. -/
def readBasic (multiline : Bool) (cs : List Char) : Except Fault (List Char × List Char) :=
  readBasicWithin multiline cs.length cs

/-- The rest of a literal string. -/
def readLiteral (cs : List Char) : Except Fault (List Char × List Char) :=
  match cs.span (· != '\x27') with
  | (body, _ :: after) => if body.any isControl then .error .malformed else .ok (body, after)
  | (_, []) => .error .malformed

/-- The rest of a multi-line literal string, up to three apostrophes. -/
def readLongLiteral : List Char → Except Fault (List Char × List Char)
  | [] => .error .malformed
  | c :: cs =>
    if c == '\x27' && startsWith "\x27\x27" cs then .ok ([], cs.drop 2)
    else if isControl c && c != '\n' then .error .malformed
    else (readLongLiteral cs).map fun r => (c :: r.1, r.2)

/-- Up to two quotes that may stand before the closing three of a multi-line string. -/
def readExtraQuotes (quote : Char) (body cs : List Char) : List Char × List Char :=
  match cs with
  | a :: b :: after =>
    if a == quote then
      if b == quote then (body ++ [quote, quote], after) else (body ++ [quote], b :: after)
    else (body, cs)
  | [a] => if a == quote then (body ++ [quote], []) else (body, cs)
  | [] => (body, cs)

/-- A text without a line feed at its start. -/
def dropNewline : List Char → List Char
  | '\n' :: rest => rest
  | cs => cs

/-- A string value. -/
def readString (cs : List Char) : Except Fault (String × List Char) :=
  let finish (r : List Char × List Char) : String × List Char := (String.ofList r.1, r.2)
  if startsWith "\"\"\"" cs then
    (readBasic true (dropNewline (cs.drop 3))).map fun r => finish (readExtraQuotes '"' r.1 r.2)
  else if startsWith "\x27\x27\x27" cs then
    (readLongLiteral (dropNewline (cs.drop 3))).map fun r =>
      finish (readExtraQuotes '\x27' r.1 r.2)
  else if startsWith "\"" cs then (readBasic false (cs.drop 1)).map finish
  else (readLiteral (cs.drop 1)).map finish

/-- One part of a key. -/
def readKeyPart (cs : List Char) : Except Fault (String × List Char) :=
  match cs with
  | [] => .error .malformed
  | c :: rest =>
    if isBareKeyChar c then
      let (part, after) := cs.span isBareKeyChar
      .ok (String.ofList part, after)
    else if c == '\x27' then (readLiteral rest).map fun r => (String.ofList r.1, r.2)
    else if c == '"' then (readBasic false rest).map fun r => (String.ofList r.1, r.2)
    else .error .malformed

/-- The parts of a key between its points, at most `fuel` of them. -/
def readKeyWithin : Nat → List Char → Except Fault (List String × List Char)
  | 0, _ => .error .malformed
  | fuel + 1, cs => do
    let (part, after) ← readKeyPart cs
    match skipSpaces after with
    | '.' :: rest =>
      let (parts, after) ← readKeyWithin fuel (skipSpaces rest)
      return (part :: parts, after)
    | after => return ([part], after)

/-- A key, with the blanks after it. -/
def readKey (cs : List Char) : Except Fault (List String × List Char) :=
  readKeyWithin cs.length cs

end TranslationKeys.Toml
