import TranslationKeys.Text.Printable

/-!
# Quoted text

How a text is shown inside a larger value: between apostrophes, or between quotation marks when it
holds an apostrophe and no quotation mark, with escapes for the quote in use, the backslash and all
characters that are not printable. Bytes are shown as the ASCII characters they encode.
-/

namespace TranslationKeys.Quoted

/-- The lower-case digit of a number below sixteen. -/
def hexDigit (n : Nat) : Char :=
  if n < 10 then Char.ofNat (48 + n) else Char.ofNat (87 + n)

/-- The last `width` digits of a number in base sixteen. -/
def hexDigits : Nat → Nat → List Char
  | 0, _ => []
  | width + 1, n => hexDigits width (n / 16) ++ [hexDigit (n % 16)]

/-- The quote a text is shown in. -/
def quoteFor (cs : List Char) : Char :=
  if cs.contains '\x27' && !cs.contains '"' then '"' else '\x27'

/-- How one character is shown between two quotes. -/
def escape (quote c : Char) : List Char :=
  let n := c.toNat
  if c == quote || c == '\\' then ['\\', c]
  else if c == '\t' then ['\\', 't']
  else if c == '\n' then ['\\', 'n']
  else if c == '\r' then ['\\', 'r']
  else if isPrintable c then [c]
  else if n < 0x100 then '\\' :: 'x' :: hexDigits 2 n
  else if n < 0x10000 then '\\' :: 'u' :: hexDigits 4 n
  else '\\' :: 'U' :: hexDigits 8 n

/-- A text in quotes. -/
def quote (cs : List Char) : List Char :=
  let q := quoteFor cs
  q :: cs.flatMap (escape q) ++ [q]

/-- How one byte is shown, with a backslash before the marked characters. -/
def escapeByte (marked : Char) (b : UInt8) : List Char :=
  let c := Char.ofNat b.toNat
  if c == marked || c == '\\' then ['\\', c]
  else if c == '\t' then ['\\', 't']
  else if c == '\n' then ['\\', 'n']
  else if c == '\r' then ['\\', 'r']
  else if 32 ≤ b.toNat && b.toNat < 127 then [c]
  else '\\' :: 'x' :: hexDigits 2 b.toNat

/-- A run of bytes in quotes. The quote in use is escaped, or, if `apostrophes` is set, the
apostrophe in any case. -/
def quoteBytes (apostrophes : Bool) (bytes : List UInt8) : String :=
  let q := quoteFor (bytes.map fun b => Char.ofNat b.toNat)
  let marked := if apostrophes then '\x27' else q
  String.ofList (q :: bytes.flatMap (escapeByte marked) ++ [q])

/-- A string in quotes. -/
def quoteString (s : String) : String :=
  String.ofList (quote s.toList)

end TranslationKeys.Quoted
