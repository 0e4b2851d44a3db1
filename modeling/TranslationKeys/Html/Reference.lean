import TranslationKeys.Failure
import TranslationKeys.Html.ReferenceTable
import TranslationKeys.Number.Integer
import TranslationKeys.Text.Split

/-!
# Character references

Attribute values and template text are unescaped by the rules of HTML. A numeric reference names a
code point; some numbers are remapped, surrogates and numbers past the last code point become the
replacement character, and controls and non-characters vanish. A named reference is replaced by the
longest known name it starts with; an unknown one stays as it is.
-/

namespace TranslationKeys.Html

/-- A named reference. -/
structure NamedReference where
  /-- The name without its semicolon. -/
  name : List Char
  /-- Whether the name is known without its semicolon. -/
  bare : Bool
  /-- What the reference stands for. -/
  replacement : List Char
  deriving DecidableEq, Repr

/-- The number that digits of a base denote; other characters count as nothing. -/
def numberOf (base : Nat) (cs : List Char) : Nat :=
  Integer.ofDigits base (cs.filterMap (digitValue? base))

/-- The reference that an entry of the table describes. -/
def NamedReference.ofEntry (entry : List Char) : NamedReference :=
  let (name, code) := entry.span (· != ':')
  { name := name.filter (· != '*')
    bare := name.contains '*'
    replacement := (splitAtEach '.' (code.drop 1)).map fun digits =>
      Char.ofNat (numberOf 16 digits) }

/-- All named references. -/
def namedReferences : List NamedReference :=
  referenceRows.flatMap fun row => (splitAtEach ' ' row.toList).map NamedReference.ofEntry

/-- What a name stands for, with or without its semicolon. -/
def named? (name : List Char) : Option (List Char) :=
  let closed := name.getLast? == some ';'
  let bareName := if closed then name.dropLast else name
  (namedReferences.find? fun r => (closed || r.bare) && r.name == bareName).map (·.replacement)

/-- The longest known name among the first `length` or fewer characters, but at least two,
replaced. -/
def longestKnown? (name : List Char) : Nat → Option (List Char)
  | 0 | 1 => none
  | length + 2 =>
    match named? (name.take (length + 2)) with
    | some replacement => some (replacement ++ name.drop (length + 2))
    | none => longestKnown? name (length + 1)

/-- What a named reference becomes. -/
def replaceNamed (name : List Char) : List Char :=
  match named? name with
  | some replacement => replacement
  | none => (longestKnown? name (name.length - 1)).getD ('&' :: name)

/-- What the numbers from 128 to 159 stand for. -/
def highControls : List Nat :=
  [0x20ac, 0x81, 0x201a, 0x0192, 0x201e, 0x2026, 0x2020, 0x2021, 0x02c6, 0x2030, 0x0160, 0x2039,
    0x0152, 0x8d, 0x017d, 0x8f, 0x90, 0x2018, 0x2019, 0x201c, 0x201d, 0x2022, 0x2013, 0x2014,
    0x02dc, 0x2122, 0x0161, 0x203a, 0x0153, 0x9d, 0x017e, 0x0178]

/-- The numbers that stand for another code point. -/
def remapped? (n : Nat) : Option Nat :=
  if n == 0 then some 0xfffd
  else if n == 0x0d then some 0x0d
  else if 0x80 ≤ n ∧ n ≤ 0x9f then highControls[n - 0x80]?
  else none

/-- The code points that vanish: controls and non-characters. -/
def vanishes (n : Nat) : Bool :=
  (1 ≤ n && n ≤ 8) || n == 0x0b || (0x0e ≤ n && n ≤ 0x1f) || (0x7f ≤ n && n ≤ 0x9f) ||
    (0xfdd0 ≤ n && n ≤ 0xfdef) || n % 0x10000 == 0xfffe || n % 0x10000 == 0xffff

/-- What a numeric reference becomes. -/
def replaceNumber (n : Nat) : List Char :=
  match remapped? n with
  | some m => [Char.ofNat m]
  | none =>
    if (0xd800 ≤ n && n ≤ 0xdfff) || n > 0x10ffff then [Char.ofNat 0xfffd]
    else if vanishes n then []
    else [Char.ofNat n]

/-- A reference without its ampersand. -/
inductive Reference where
  /-- A number, with how many decimal digits it has if it is decimal. -/
  | number (n : Nat) (decimals : Nat)
  /-- A name, with its semicolon if it has one. -/
  | name (cs : List Char)
  deriving DecidableEq, Repr

/-- The characters a name may hold. -/
def isNameChar (c : Char) : Bool :=
  !(c == '\t' || c == '\n' || c == '\x0c' || c == ' ' || c == '<' || c == '&' || c == '#' ||
    c == ';')

/-- A digit of a base. -/
def isDigitOf (base : Nat) (c : Char) : Bool :=
  (digitValue? base c).isSome

/-- A list without one leading semicolon. -/
def dropSemicolon : List Char → List Char
  | ';' :: rest => rest
  | cs => cs

/-- The longest name that is looked up. -/
def longestName : Nat := 32

/-- The reference that follows an ampersand, if one does, and what comes after it. -/
def reference? (cs : List Char) : Option (Reference × List Char) :=
  match cs with
  | '#' :: rest =>
    match rest.span (isDigitOf 10) with
    | (d :: ds, after) =>
      some (.number (numberOf 10 (d :: ds)) (ds.length + 1), dropSemicolon after)
    | ([], x :: rest) =>
      if x == 'x' || x == 'X' then
        match rest.span (isDigitOf 16) with
        | (d :: ds, after) => some (.number (numberOf 16 (d :: ds)) 0, dropSemicolon after)
        | ([], _) => none
      else none
    | ([], []) => none
  | cs =>
    let name := (cs.take longestName).takeWhile isNameChar
    let after := cs.drop name.length
    if name.isEmpty then none
    else match after with
      | ';' :: rest => some (.name (name ++ [';']), rest)
      | after => some (.name name, after)

/-- What a reference becomes. -/
def Reference.replacement : Reference → Except Failure (List Char)
  | number n decimals =>
    if decimals > Integer.maxDigits then .error .numeralTooLong else .ok (replaceNumber n)
  | name cs => .ok (replaceNamed cs)

/-- Replaces references one after the other, at most `fuel` characters and references in all. -/
def unescapeWithin : Nat → List Char → Except Failure (List Char)
  | _, [] => .ok []
  | 0, cs => .ok cs
  | fuel + 1, c :: cs =>
    if c == '&' then
      match reference? cs with
      | some (reference, after) => do
        return (← reference.replacement) ++ (← unescapeWithin fuel after)
      | none => do return c :: (← unescapeWithin fuel cs)
    else do return c :: (← unescapeWithin fuel cs)

/-- A text with its character references replaced. -/
def unescape (cs : List Char) : Except Failure (List Char) :=
  unescapeWithin cs.length cs

end TranslationKeys.Html
