import TranslationKeys.Text.Lowercase
import TranslationKeys.Value

/-!
# Number literals

The value of a number literal of a script. Underscores separate digits, a final `n` marks a long
integer, `0x`, `0o` and `0b` mark a base, and a leading zero marks a legacy octal number, which is
decimal after all if a digit exceeds seven. All other numerals are doubles; what is no numeral is
not a number.
-/

namespace TranslationKeys.NumberLiteral

/-- A literal without separators and without the mark of a long integer. -/
def bare (raw : List Char) : List Char :=
  let text := raw.filter (· != '_')
  if text.getLast? == some 'n' then text.dropLast else text

/-- Whether a numeral starts with the marker of a base. -/
def isMarked : List Char → Bool
  | '0' :: m :: _ => (Integer.baseOfMarker? m).isSome
  | _ => false

/-- Whether all digits are below eight. -/
def isOctal (cs : List Char) : Bool :=
  cs.all fun c => '0'.toNat ≤ c.toNat && c.toNat ≤ '7'.toNat

/-- The integer of a numeral that holds digits only. -/
def digitsValue? (cs : List Char) : Option Int :=
  match cs with
  | '0' :: _ :: _ => if isOctal cs then Integer.read? 8 cs else Integer.read? 10 cs
  | _ => Integer.read? 10 cs

/-- The value of a number literal. -/
def value (raw : List Char) : Scalar :=
  let text := lowercase (bare raw)
  if isMarked text then
    (Integer.readMarked? text).elim (.float .nan) .int
  else if !text.isEmpty && text.all isDigitChar then
    (digitsValue? text).elim (.float .nan) .int
  else
    .float ((DecimalText.read? text).getD .nan)

end TranslationKeys.NumberLiteral
