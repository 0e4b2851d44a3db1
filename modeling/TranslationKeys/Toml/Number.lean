import TranslationKeys.Toml.Text
import TranslationKeys.Value

/-!
# Numbers and moments of TOML

Dates and times are tried before numbers, since both start with digits. A reader that finds nothing
of its kind yields nothing; the longest possible spelling is taken.
-/

namespace TranslationKeys.Toml

/-- A decimal digit. -/
def isDigit (c : Char) : Bool := (digitValue? 10 c).isSome

/-- The number that a fixed count of decimal digits denotes. -/
def fixedDigits? (width : Nat) (cs : List Char) : Option (Nat × List Char) :=
  let values := (cs.take width).filterMap (digitValue? 10)
  if values.length == width then some (Integer.ofDigits 10 values, cs.drop width) else none

/-- What follows an expected character. -/
def expect? (c : Char) : List Char → Option (List Char)
  | d :: rest => if c == d then some rest else none
  | [] => none

/-- Two digits that denote a number up to a bound. -/
def twoDigits? (low high : Nat) (cs : List Char) : Option (Nat × List Char) := do
  let (n, rest) ← fixedDigits? 2 cs
  if low ≤ n && n ≤ high then some (n, rest) else none

/-- The microseconds after a point; further digits are dropped. -/
def readFraction (cs : List Char) : Nat × List Char :=
  match cs with
  | '.' :: rest =>
    let digits := rest.takeWhile isDigit
    if digits.isEmpty then (0, cs)
    else
      let six := (digits ++ List.replicate 6 '0').take 6
      (Integer.ofDigits 10 (six.filterMap (digitValue? 10)), rest.drop digits.length)
  | cs => (0, cs)

/-- A time of day. -/
def clock? (cs : List Char) : Option (Clock × List Char) := do
  let (hour, cs) ← twoDigits? 0 23 cs
  let (minute, cs) ← twoDigits? 0 59 (← expect? ':' cs)
  let (second, cs) ← twoDigits? 0 59 (← expect? ':' cs)
  let (micros, cs) := readFraction cs
  return (⟨hour, minute, second, micros⟩, cs)

/-- A date that has the right layout, whether the calendar has it or not. -/
def day? (cs : List Char) : Option (Day × List Char) := do
  let (year, cs) ← fixedDigits? 4 cs
  let (month, cs) ← twoDigits? 1 12 (← expect? '-' cs)
  let (day, cs) ← twoDigits? 1 31 (← expect? '-' cs)
  return (⟨year, month, day⟩, cs)

/-- An offset of hours and minutes after its sign. -/
def hoursAndMinutes? (cs : List Char) : Option (Nat × List Char) := do
  let (hours, cs) ← twoDigits? 0 23 cs
  let (minutes, cs) ← twoDigits? 0 59 (← expect? ':' cs)
  return (hours * 60 + minutes, cs)

/-- The offset after a time, if there is one. -/
def readOffset (cs : List Char) : Option Int × List Char :=
  match cs with
  | 'Z' :: rest | 'z' :: rest => (some 0, rest)
  | '+' :: rest =>
    match hoursAndMinutes? rest with
    | some (n, after) => (some n, after)
    | none => (none, cs)
  | '-' :: rest =>
    match hoursAndMinutes? rest with
    | some (n, after) => (some (-(n : Int)), after)
    | none => (none, cs)
  | cs => (none, cs)

/-- Whether a character may stand between a date and a time. -/
def isDivider (c : Char) : Bool := c == 'T' || c == 't' || c == ' '

/-- A date, alone or with a time. -/
def dated? (cs : List Char) : Option (Day × Moment × List Char) := do
  let (day, cs) ← day? cs
  let withTime := match cs with
    | c :: rest => if isDivider c then clock? rest else none
    | [] => none
  match withTime with
  | some (clock, after) =>
    let (offset, after) := readOffset after
    return (day, .stamp day clock offset, after)
  | none => return (day, .date day, cs)

/-- A moment, if the text starts with one. A day that the calendar does not have is a fault. -/
def moment? (cs : List Char) : Except Fault (Option (Moment × List Char)) :=
  match dated? cs with
  | some (day, moment, after) =>
    if day.isValid then .ok (some (moment, after)) else .error .malformed
  | none =>
    match clock? cs with
    | some (clock, after) => .ok (some (.time clock, after))
    | none => .ok none

/-- Digits of a base, single underscores between them left out, and what follows them. -/
def digitRun (base : Nat) : List Char → List Char × List Char
  | [] => ([], [])
  | '_' :: c :: cs =>
    if (digitValue? base c).isSome then
      let (ds, after) := digitRun base cs
      (c :: ds, after)
    else ([], '_' :: c :: cs)
  | c :: cs =>
    if (digitValue? base c).isSome then
      let (ds, after) := digitRun base cs
      (c :: ds, after)
    else ([], c :: cs)

/-- One or more digits of a base. -/
def digits? (base : Nat) (cs : List Char) : Option (List Char × List Char) :=
  match cs with
  | c :: rest =>
    if (digitValue? base c).isSome then
      let (ds, after) := digitRun base rest
      some (c :: ds, after)
    else none
  | [] => none

/-- The number that digits of a base denote. -/
def numberOf (base : Nat) (ds : List Char) : Nat :=
  Integer.ofDigits base (ds.filterMap (digitValue? base))

/-- The base that a letter after a zero marks; capitals mark none. -/
def markedBase? : Char → Option Nat
  | 'x' => some 16
  | 'o' => some 8
  | 'b' => some 2
  | _ => none

/-- An integer with a marked base. -/
def marked? (cs : List Char) : Option (Value × List Char) :=
  match cs with
  | '0' :: m :: rest => do
    let base ← markedBase? m
    let (ds, after) ← digits? base rest
    return (.int (numberOf base ds), after)
  | _ => none

/-- The whole part of a decimal number: a zero, or digits that start with none. -/
def whole? (cs : List Char) : Option (List Char × List Char) :=
  match cs with
  | '0' :: rest => some (['0'], rest)
  | cs => digits? 10 cs

/-- The fraction of a decimal number with its point, or nothing. -/
def fraction (cs : List Char) : List Char × List Char :=
  match cs with
  | '.' :: rest =>
    match digits? 10 rest with
    | some (ds, after) => ('.' :: ds, after)
    | none => ([], cs)
  | cs => ([], cs)

/-- The exponent of a decimal number with its mark, or nothing. -/
def exponent (cs : List Char) : List Char × List Char :=
  match cs with
  | e :: rest =>
    if e == 'e' || e == 'E' then
      let (sign, body) := match rest with
        | '+' :: body => (['+'], body)
        | '-' :: body => (['-'], body)
        | body => ([], body)
      match digits? 10 body with
      | some (ds, after) => ('e' :: sign ++ ds, after)
      | none => ([], cs)
    else ([], cs)
  | [] => ([], cs)

/-- A decimal number: an integer, or a double if it has a fraction or an exponent. -/
def decimal? (cs : List Char) : Option (Except Fault Value × List Char) := do
  let (negative, body) := Integer.splitSign cs
  let (digits, rest) ← whole? body
  let (point, rest) := fraction rest
  let (power, rest) := exponent rest
  if point.isEmpty && power.isEmpty then
    if digits.length > Integer.maxDigits then return (.error .numeralTooLong, rest)
    else return (.ok (.int (Integer.signed negative (numberOf 10 digits))), rest)
  else
    let sign := if negative then ['-'] else []
    return (.ok (.float ((DecimalText.read? (sign ++ digits ++ point ++ power)).getD .nan)), rest)

/-- The doubles that are spelled by name. What is not a number is known by where it stands: by how
much of the document is left. -/
def special? (cs : List Char) : Option (Value × List Char) :=
  let (negative, body) := Integer.splitSign cs
  if startsWith "inf" body then some (.float (.infinite negative), body.drop 3)
  else if startsWith "nan" body then some (.float (.nan body.length), body.drop 3)
  else none

/-- A moment or a number. -/
def readNumber (cs : List Char) : Except Fault (Value × List Char) := do
  match ← moment? cs with
  | some (m, after) => return (.moment m, after)
  | none =>
    match marked? cs with
    | some found => return found
    | none =>
      match decimal? cs with
      | some (value, after) => return (← value, after)
      | none =>
        match special? cs with
        | some found => return found
        | none => throw .malformed

end TranslationKeys.Toml
