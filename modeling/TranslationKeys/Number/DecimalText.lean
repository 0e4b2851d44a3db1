import TranslationKeys.Number.Binary64
import TranslationKeys.Number.Integer

/-!
# Doubles as decimal text

Reading takes a sign, digits with an optional point and exponent, or a name for a special value,
and gives the nearest double. Single underscores may divide digits. Writing takes the fewest digits
that read back as the same double. Numbers from 10^-4 up to 10^16 are written without an exponent,
and a whole number keeps `.0`.
-/

namespace TranslationKeys.DecimalText

/-- The digits in front of a text and the rest of it. -/
def spanDigits (cs : List Char) : List Char × List Char :=
  cs.span Char.isDigit

/-- The number decimal digits denote. -/
def digitsValue (cs : List Char) : Nat :=
  cs.foldl (fun n c => n * 10 + (c.toNat - 48)) 0

/-- The exponent at the end of a numeral: nothing, or a marker with a sign and digits. -/
def exponent? : List Char → Option Int
  | [] => some 0
  | c :: cs =>
    if c == 'e' || c == 'E' then
      let (negative, body) := Integer.splitSign cs
      let (ds, rest) := spanDigits body
      if ds.isEmpty || !rest.isEmpty then none
      else some (Integer.signed negative (digitsValue ds))
    else none

/-- An unsigned numeral with an optional point and exponent. -/
def unsigned? (negative : Bool) (cs : List Char) : Option Binary64 := do
  let (whole, rest) := spanDigits cs
  let (fraction, rest) := match rest with
    | '.' :: rest => spanDigits rest
    | rest => ([], rest)
  if whole.isEmpty && fraction.isEmpty then none
  else
    let e ← exponent? rest
    return Binary64.ofDecimal negative (digitsValue (whole ++ fraction)) (e - fraction.length)

/-- A numeral without its underscores, each of which has to stand between two digits. `afterDigit`
says whether a digit comes before. -/
def withoutSeparators? : (afterDigit : Bool) → List Char → Option (List Char)
  | _, [] => some []
  | _, ['_'] => none
  | afterDigit, '_' :: c :: cs =>
    if afterDigit && c.isDigit then (withoutSeparators? true cs).map (c :: ·) else none
  | _, c :: cs => (withoutSeparators? c.isDigit cs).map (c :: ·)

/-- The double a text denotes, blanks around it, single underscores between digits and the case of
letters apart. -/
def read? (cs : List Char) : Option Binary64 := do
  let numeral ← withoutSeparators? false (trimBy isAsciiBlank (Integer.asciiForm cs))
  let (negative, body) := Integer.splitSign numeral
  let name := String.ofList (body.map Char.toLower)
  if name == "inf" || name == "infinity" then some (.infinite negative)
  else if name == "nan" then some .nan
  else unsigned? negative body

/-- Compares `a * 2 ^ p` with `d * 10 ^ k`. -/
def compareScaled (a : Nat) (p : Int) (d : Nat) (k : Int) : Ordering :=
  compare (a * Nat.pow 2 p.toNat * Nat.pow 10 (-k).toNat)
    (d * Nat.pow 10 k.toNat * Nat.pow 2 (-p).toNat)

/-- The greatest `k` with `10 ^ k ≤ mantissa * 2 ^ exponent`, for a positive mantissa. -/
def floorLog10 (mantissa : Nat) (exponent : Int) : Int :=
  let guess := (exponent + Nat.log2 mantissa) * 30103 / 100000
  if compareScaled mantissa exponent 1 guess == .lt then guess - 1
  else if compareScaled mantissa exponent 1 (guess + 1) == .lt then guess
  else guess + 1

/-- The whole number of times `10 ^ k` fits into `mantissa * 2 ^ exponent`. -/
def floorScaled (mantissa : Nat) (exponent k : Int) : Nat :=
  (mantissa * Nat.pow 2 exponent.toNat * Nat.pow 10 (-k).toNat) /
    (Nat.pow 10 k.toNat * Nat.pow 2 (-exponent).toNat)

/-- Whether `d * 10 ^ k` reads back as the double with this mantissa and exponent. The interval of
numbers that do is measured in quarters of the mantissa's unit; its ends belong to it when the
mantissa is even, and its lower half is narrower below a power of two. -/
def readsBack (mantissa : Nat) (exponent : Int) (d : Nat) (k : Int) : Bool :=
  let narrow := mantissa == Nat.pow 2 52 && exponent > Binary64.minExponent
  let low := 4 * mantissa - (if narrow then 1 else 2)
  let high := 4 * mantissa + 2
  let closed := mantissa % 2 == 0
  let below := compareScaled low (exponent - 2) d k
  let above := compareScaled high (exponent - 2) d k
  (below == .lt || (closed && below == .eq)) && (above == .gt || (closed && above == .eq))

/-- Of `d` and `d + 1`, the one whose multiple of `10 ^ k` is nearer to the double; a tie goes to
the even one. -/
def nearer (mantissa : Nat) (exponent : Int) (d : Nat) (k : Int) : Nat :=
  match compareScaled (2 * mantissa) exponent (2 * d + 1) k with
  | .lt => d
  | .gt => d + 1
  | .eq => if d % 2 == 0 then d else d + 1

/-- The shortest decimal that reads back, among those with at least the digits of the grid `k` and
at most `tries` digits more; the last grid is fine enough for every double. -/
def shortestFrom (mantissa : Nat) (exponent : Int) : Nat → Int → Nat × Int
  | 0, k => (nearer mantissa exponent (floorScaled mantissa exponent k) k, k)
  | tries + 1, k =>
    let d := floorScaled mantissa exponent k
    match readsBack mantissa exponent d k, readsBack mantissa exponent (d + 1) k with
    | true, true => (nearer mantissa exponent d k, k)
    | true, false => (d, k)
    | false, true => (d + 1, k)
    | false, false => shortestFrom mantissa exponent tries (k - 1)

/-- The shortest decimal `d * 10 ^ k` that reads back as a positive double. -/
def shortest (mantissa : Nat) (exponent : Int) : Nat × Int :=
  shortestFrom mantissa exponent 16 (floorLog10 mantissa exponent)

/-- Digits without the zeros at their end. -/
def dropTrailingZeros (ds : List Char) : List Char :=
  (ds.reverse.dropWhile (· == '0')).reverse

/-- An exponent with its sign and at least two digits. -/
def exponentText (x : Int) : List Char :=
  let ds := Integer.natDigits x.natAbs
  (if x < 0 then '-' else '+') :: (if ds.length < 2 then '0' :: ds else ds)

/-- The layout of significant digits, the first of which counts `10 ^ x`. -/
def layout (ds : List Char) (x : Int) : List Char :=
  if x < -4 || x ≥ 16 then
    match ds with
    | [] => []
    | [d] => d :: 'e' :: exponentText x
    | d :: rest => d :: '.' :: rest ++ 'e' :: exponentText x
  else if x < 0 then
    '0' :: '.' :: List.replicate (x.natAbs - 1) '0' ++ ds
  else
    let n := x.toNat + 1
    if ds.length ≤ n then ds ++ List.replicate (n - ds.length) '0' ++ ['.', '0']
    else ds.take n ++ '.' :: ds.drop n

/-- The text of a positive double. -/
def positive (mantissa : Nat) (exponent : Int) : List Char :=
  let (d, k) := shortest mantissa exponent
  let ds := Integer.natDigits d
  layout (dropTrailingZeros ds) (k + ds.length - 1)

/-- The text of a double. -/
def write : Binary64 → String
  | .nan _ => "nan"
  | .infinite negative => if negative then "-inf" else "inf"
  | .finite negative mantissa exponent =>
    let body := if mantissa == 0 then ['0', '.', '0'] else positive mantissa exponent
    String.ofList (if negative then '-' :: body else body)

end TranslationKeys.DecimalText
