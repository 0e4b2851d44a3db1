import TranslationKeys.Text.Blank
import TranslationKeys.Text.Digit

/-!
# Integers as text

Reading accepts surrounding blanks, a sign, a marker for the base, single underscores between
digits and the decimal digits of every script. Numerals of more than 4300 digits are refused in
both directions, except where the base is a power of two, which needs no division.
-/

namespace TranslationKeys.Integer

/-- The longest decimal numeral that is read or written. -/
def maxDigits : Nat := 4300

/-- A text as a reader of numbers sees it: characters outside ASCII become a space, a digit or a
question mark. -/
def asciiForm (cs : List Char) : List Char :=
  cs.map fun c =>
    if c.toNat < 127 then c
    else if isBlank c then ' '
    else match decimalValue? c with
      | some d => Char.ofNat (48 + d)
      | none => '?'

/-- A sign, if there is one, and the characters after it. -/
def splitSign : List Char → Bool × List Char
  | '-' :: rest => (true, rest)
  | '+' :: rest => (false, rest)
  | cs => (false, cs)

/-- The letter that marks a base after a leading zero. -/
def baseOfMarker? (c : Char) : Option Nat :=
  if c == 'x' || c == 'X' then some 16
  else if c == 'o' || c == 'O' then some 8
  else if c == 'b' || c == 'B' then some 2
  else none

/-- The digits of a numeral in which every underscore stands between two digits. `afterDigit` says
whether an underscore may come next. -/
def digits? (base : Nat) : Bool → List Char → Option (List Nat)
  | afterDigit, [] => if afterDigit then some [] else none
  | afterDigit, c :: cs =>
    if c == '_' then
      if afterDigit then digits? base false cs else none
    else do
      let d ← digitValue? base c
      let ds ← digits? base true cs
      return d :: ds

/-- The number a list of digits denotes, the first digit being the most significant. -/
def ofDigits (base : Nat) (ds : List Nat) : Nat :=
  ds.foldl (fun n d => n * base + d) 0

/-- Whether numerals of a base are read whatever their length. -/
def isUnbounded (base : Nat) : Bool :=
  base == 2 || base == 8 || base == 16

/-- The numeral after a base marker of the given base, which one underscore may follow. -/
def afterMarker (base : Nat) (cs : List Char) : List Char :=
  match cs with
  | '0' :: m :: rest =>
    if baseOfMarker? m == some base then
      match rest with
      | '_' :: rest => rest
      | rest => rest
    else cs
  | cs => cs

/-- The number that unsigned digits of a base denote. -/
def magnitude? (base : Nat) (cs : List Char) : Option Nat := do
  let ds ← digits? base false (afterMarker base cs)
  if !isUnbounded base && ds.length > maxDigits then none else some (ofDigits base ds)

/-- A sign applied to a magnitude. -/
def signed (negative : Bool) (n : Nat) : Int :=
  if negative then -(n : Int) else n

/-- The integer a text denotes in a base. -/
def read? (base : Nat) (cs : List Char) : Option Int := do
  let (negative, body) := splitSign (trimBy isAsciiBlank (asciiForm cs))
  let n ← magnitude? base body
  return signed negative n

/-- The integer a text denotes in the base its marker names, or in base ten without a marker. A
numeral that starts with a zero and has no marker must be zero. -/
def readMarked? (cs : List Char) : Option Int := do
  let (negative, body) := splitSign (trimBy isAsciiBlank (asciiForm cs))
  match body with
  | '0' :: m :: _ =>
    match baseOfMarker? m with
    | some base =>
      let n ← magnitude? base body
      return signed negative n
    | none =>
      let n ← magnitude? 10 body
      if n == 0 then some 0 else none
  | _ =>
    let n ← magnitude? 10 body
    return signed negative n

/-- The decimal numeral of a natural number. -/
def natDigits (n : Nat) : List Char :=
  Nat.toDigits 10 n

/-- The decimal numeral of an integer, whatever its length. -/
def digitsOf : Int → List Char
  | .ofNat n => natDigits n
  | .negSucc n => '-' :: natDigits (n + 1)

/-- The decimal numeral of an integer, unless it is too long to be written. -/
def text? (i : Int) : Option String :=
  if i.natAbs < Nat.pow 10 maxDigits then some (String.ofList (digitsOf i)) else none

end TranslationKeys.Integer
