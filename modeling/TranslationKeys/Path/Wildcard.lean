/-!
# Wildcard patterns

A pattern is matched against a whole text. `*` stands for any run of characters, slashes included,
`?` for one character, and a bracket expression for one character of a class. A class lists
characters and ranges and is negated by a leading `!`. A range whose ends are out of order is
empty and is taken out first, so that a `!` after it may become the leading one; a class without
members matches nothing, or everything if negated. An opening bracket that is never closed stands
for itself.

`Wildcard.matchesAll` says what a match is, by trying all ways to place the runs. `Wildcard.row`
finds the same answer for all ends of the text at once, in time proportional to the product of the
two lengths.
-/

namespace TranslationKeys

/-- One part of a pattern. -/
inductive Wildcard where
  /-- Any run of characters. -/
  | run
  /-- Any one character. -/
  | any
  /-- The given character. -/
  | only (c : Char)
  /-- One character in, or if negated outside, a list of closed ranges. -/
  | among (negated : Bool) (ranges : List (Char × Char))
  deriving DecidableEq, Repr

namespace Wildcard

/-- The characters that make a text a pattern. -/
def isMagic (c : Char) : Bool :=
  c == '*' || c == '?' || c == '['

/-- Whether a text is a pattern rather than a plain name. -/
def hasMagic (cs : List Char) : Bool :=
  cs.any isMagic

/-- The body of a bracket expression and what follows its closing bracket. A bracket right at the
start of the body, or right after a leading `!`, does not close it. -/
def bracketBody? (cs : List Char) : Option (List Char × List Char) :=
  let (lead, rest) := match cs with
    | '!' :: ']' :: rest => (['!', ']'], rest)
    | '!' :: rest => (['!'], rest)
    | ']' :: rest => ([']'], rest)
    | rest => ([], rest)
  match rest.span (· != ']') with
  | (body, _ :: after) => some (lead ++ body, after)
  | (_, []) => none

/-- Cuts a class at the hyphens that divide ranges. A hyphen divides a range if at least `wait`
characters come before it in its piece; after a dividing hyphen the next one needs two. The current
piece is given in reverse. -/
def cutRanges : Nat → List Char → List Char → List (List Char)
  | _, piece, [] => [piece.reverse]
  | 0, piece, '-' :: cs => piece.reverse :: cutRanges 2 [] cs
  | wait, piece, c :: cs => cutRanges (wait - 1) (c :: piece) cs

/-- The pieces of a class between its dividing hyphens. A hyphen at the end of the class belongs to
the piece before it. -/
def rangePieces (body : List Char) : List (List Char) :=
  let pieces := cutRanges (if body.head? == some '!' then 2 else 1) [] body
  match pieces.reverse with
  | [] :: piece :: earlier => ((piece ++ ['-']) :: earlier).reverse
  | _ => pieces

/-- Joins two neighbouring pieces whose range is out of order, dropping its ends. -/
def dropEmptyRange (piece : List Char) : List (List Char) → List (List Char)
  | [] => [piece]
  | next :: rest =>
    match piece.getLast?, next.head? with
    | some low, some high =>
      if low.toNat > high.toNat then (piece.dropLast ++ next.drop 1) :: rest
      else piece :: next :: rest
    | _, _ => piece :: next :: rest

/-- The pieces of a class without the ranges that are out of order, the last range first. -/
def dropEmptyRanges (pieces : List (List Char)) : List (List Char) :=
  pieces.foldr dropEmptyRange []

/-- The single characters and ranges of a class, given its pieces. Between two pieces lies a range
from the last character of one to the first of the next; a hyphen that has nothing left before it,
or nothing after it, stands for itself. -/
def rangesOf : List (List Char) → List (Char × Char)
  | [] => []
  | [piece] => piece.map fun c => (c, c)
  | piece :: next :: rest =>
    let singles := piece.dropLast.map fun c => (c, c)
    match piece.getLast?, next with
    | some low, high :: others => singles ++ (low, high) :: rangesOf (others :: rest)
    | none, _ => ('-', '-') :: rangesOf (next :: rest)
    | some last, [] => singles ++ (last, last) :: ('-', '-') :: rangesOf ([] :: rest)
termination_by pieces => pieces.length

/-- The part of a pattern that a bracket expression stands for. -/
def ofBracket (body : List Char) : Wildcard :=
  let pieces := if body.contains '-' then dropEmptyRanges (rangePieces body) else [body]
  match pieces with
  | ('!' :: piece) :: rest => .among true (rangesOf (piece :: rest))
  | pieces => .among false (rangesOf pieces)

/-- Parts with a run in front; one run is as good as two. -/
def consRun : List Wildcard → List Wildcard
  | .run :: ws => .run :: ws
  | ws => .run :: ws

/-- The parts of a pattern; `fuel` bounds their number. -/
def parseWithin : Nat → List Char → List Wildcard
  | 0, _ => []
  | _, [] => []
  | fuel + 1, c :: cs =>
    if c == '*' then consRun (parseWithin fuel cs)
    else if c == '?' then .any :: parseWithin fuel cs
    else if c == '[' then
      match bracketBody? cs with
      | some (body, after) => ofBracket body :: parseWithin fuel after
      | none => .only c :: parseWithin fuel cs
    else .only c :: parseWithin fuel cs

/-- The parts of a pattern; every part takes at least one character of it. -/
def parse (pattern : List Char) : List Wildcard :=
  parseWithin pattern.length pattern

/-- Whether a part that stands for one character stands for this one. -/
def accepts (w : Wildcard) (c : Char) : Bool :=
  match w with
  | run => false
  | any => true
  | only d => c == d
  | among negated ranges =>
    ranges.any (fun r => r.1.toNat ≤ c.toNat && c.toNat ≤ r.2.toNat) != negated

/-- The ends of a list that start at one of its places, the list itself and the empty one
included. -/
def suffixes {α : Type} : List α → List (List α)
  | [] => [[]]
  | x :: xs => (x :: xs) :: suffixes xs

/-- Whether the parts of a pattern match a whole text. -/
def matchesAll : List Wildcard → List Char → Bool
  | [], cs => cs.isEmpty
  | .run :: ws, cs => (suffixes cs).any (matchesAll ws)
  | _ :: _, [] => false
  | w :: ws, c :: cs => w.accepts c && matchesAll ws cs

/-- Whether one of the flags from each place on is set. -/
def anyFrom : List Bool → List Bool
  | [] => []
  | b :: bs =>
    let rest := anyFrom bs
    (b || rest.headD false) :: rest

/-- For each end of a text, whether its first character is accepted and the flag of the end after
it is set. -/
def acceptsThen (w : Wildcard) : List Char → List Bool → List Bool
  | c :: cs, _ :: later => (w.accepts c && later.headD false) :: acceptsThen w cs later
  | _, _ => [false]

/-- For each end of a text, whether the parts of a pattern match it. -/
def row : List Wildcard → List Char → List Bool
  | [], cs => (suffixes cs).map List.isEmpty
  | .run :: ws, cs => anyFrom (row ws cs)
  | w :: ws, cs => acceptsThen w cs (row ws cs)

/-- The flags from each place on, for the ends of a list. -/
theorem anyFrom_map_suffixes {α : Type} (f : List α → Bool) (xs : List α) :
    anyFrom ((suffixes xs).map f) = (suffixes xs).map fun s => (suffixes s).any f := by
  induction xs with
  | nil => simp [suffixes, anyFrom]
  | cons x xs ih =>
    simp only [suffixes, List.map_cons, anyFrom, ih]
    cases xs <;> simp [suffixes]

/-- Accepting one character before a match, for the ends of a text. -/
theorem acceptsThen_map_suffixes (w : Wildcard) (ws : List Wildcard) (cs : List Char)
    (hw : w ≠ .run) :
    acceptsThen w cs ((suffixes cs).map (matchesAll ws)) =
      (suffixes cs).map (matchesAll (w :: ws)) := by
  induction cs with
  | nil => cases w <;> simp_all [suffixes, acceptsThen, matchesAll]
  | cons c cs ih =>
    have head : ((suffixes cs).map (matchesAll ws)).headD false = matchesAll ws cs := by
      cases cs <;> simp [suffixes]
    simp only [suffixes, List.map_cons, acceptsThen, ih, head]
    cases w <;> simp_all [matchesAll]

/-- The row of a pattern holds its matches of all ends of a text. -/
theorem row_eq_map_matchesAll (ws : List Wildcard) (cs : List Char) :
    row ws cs = (suffixes cs).map (matchesAll ws) := by
  induction ws with
  | nil => simp [row, matchesAll]
  | cons w ws ih =>
    cases w with
    | run =>
      simp only [row, ih, anyFrom_map_suffixes]
      apply List.map_congr_left
      intro s _
      cases s <;> simp [matchesAll]
    | any | only | among => simp only [row, ih]; exact acceptsThen_map_suffixes _ _ _ (by simp)

/-- Whether a pattern matches a whole text. -/
def matchesText (pattern text : List Char) : Bool :=
  (row (parse pattern) text).headD false

/-- A pattern matches a text if its parts do. -/
theorem matchesText_eq (pattern text : List Char) :
    matchesText pattern text = matchesAll (parse pattern) text := by
  simp only [matchesText, row_eq_map_matchesAll]
  cases text <;> simp [suffixes]

end Wildcard

end TranslationKeys
