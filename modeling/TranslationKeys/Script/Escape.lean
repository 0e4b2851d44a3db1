import TranslationKeys.Failure
import TranslationKeys.Number.Integer
import TranslationKeys.Text.CodePoint

/-!
# Escape sequences

What an escape sequence in a string literal stands for. Each sequence is decoded on its own, so a
pair of surrogate escapes stays a pair of surrogates. A sequence that names no code point stands
for the characters after its backslash.
-/

namespace TranslationKeys.Escape

/-- The escapes of one letter or digit. -/
def simple? : Char → Option Char
  | 'n' => some '\n'
  | 't' => some '\t'
  | 'r' => some '\r'
  | 'b' => some (Char.ofNat 8)
  | 'f' => some (Char.ofNat 12)
  | 'v' => some (Char.ofNat 11)
  | '0' => some (Char.ofNat 0)
  | _ => none

/-- A line ends at a line feed, a carriage return or one of the two Unicode separators. -/
def isLineTerminator (c : Char) : Bool :=
  c == '\r' || c == '\n' || c.toNat == 0x2028 || c.toNat == 0x2029

/-- The part of an escape that spells a number: between braces after `u`, four places after `u`, or
two places after `x`. -/
def numeral? : List Char → Option (List Char)
  | 'u' :: '\x7b' :: rest =>
    if rest.getLast? == some '\x7d' then some rest.dropLast
    else if rest.length == 3 then some ('\x7b' :: rest)
    else none
  | 'u' :: rest => if rest.length == 4 then some rest else none
  | 'x' :: rest => if rest.length == 2 then some rest else none
  | _ => none

/-- Numbers in this range are told to be no code point; others are too large to be told so. -/
def isTestable (n : Int) : Bool :=
  -2147483648 ≤ n && n ≤ 2147483647

/-- What a numeric escape with this body and numeral stands for. -/
def ofNumeral (body numeral : List Char) : Except Failure Text :=
  match Integer.read? 16 numeral with
  | none => .ok (Text.ofChars body)
  | some n =>
    if !isTestable n then .error .codePointOverflow
    else match n with
      | .ofNat k => match CodePoint.ofNat? k with
        | some p => .ok [p]
        | none => .ok (Text.ofChars body)
      | .negSucc _ => .ok (Text.ofChars body)

/-- What an escape without a numeral stands for. -/
def ofBody : List Char → Text
  | [] => []
  | [c] =>
    match simple? c with
    | some d => [CodePoint.ofChar d]
    | none => if isLineTerminator c then [] else [CodePoint.ofChar c]
  | c :: cs => if isLineTerminator c then [] else Text.ofChars (c :: cs)

/-- What an escape sequence, its backslash included, stands for. -/
def decode (sequence : List Char) : Except Failure Text :=
  let body := sequence.drop 1
  match numeral? body with
  | some numeral => ofNumeral body numeral
  | none => .ok (ofBody body)

end TranslationKeys.Escape
