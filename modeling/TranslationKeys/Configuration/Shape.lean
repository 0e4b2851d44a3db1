import TranslationKeys.Parser.Options

/-!
# Shapes of configuration values

A configuration is checked field by field and all faults are reported, each with the way to the
offending value. A list field takes any sequence or set. Tables have string keys. Bytes count as
the string that they encode.
-/

namespace TranslationKeys

/-- A checked value, or all faults found in it. -/
abbrev Checked (α : Type) := Except (List ShapeError) α

namespace Checked

/-- The faults of a check. -/
def errors {α : Type} : Checked α → List ShapeError
  | .ok _ => []
  | .error es => es

/-- A check that fails with one fault at the value itself. -/
def fail {α : Type} (fault : ShapeFault) : Checked α :=
  .error [⟨[], fault⟩]

/-- A check of a value that lies one step below another. -/
def under {α : Type} (step : LocationStep) (c : Checked α) : Checked α :=
  c.mapError fun es => es.map fun e => { e with location := step :: e.location }

/-- The values of a list of checks, or the faults of all of them in order. -/
def all {α : Type} : List (Checked α) → Checked (List α)
  | [] => .ok []
  | c :: cs =>
    match c, all cs with
    | .ok x, .ok xs => .ok (x :: xs)
    | c, rest => .error (errors c ++ errors rest)

end Checked

namespace Shape

/-- A string, possibly given by its bytes. -/
def string : Value → Checked String
  | .str s => .ok s
  | .bytes _ content =>
    match Utf8.decode? content with
    | some cs => .ok (String.ofList cs)
    | none => Checked.fail .notUnicode
  | _ => Checked.fail .notString

/-- A string or nothing. -/
def optionalString : Value → Checked (Option String)
  | .null => .ok none
  | v => (string v).map some

/-- The items of a sequence or a set. -/
def items (fault : ShapeFault) : Value → Checked (List Value)
  | .list xs | .tuple xs | .set xs | .frozenSet xs => .ok xs
  | _ => Checked.fail fault

/-- Checks each item of a list, the first being at the given position. -/
def each {α : Type} (check : Value → Checked α) : Nat → List Value → List (Checked α)
  | _, [] => []
  | i, v :: vs => (check v).under (.index i) :: each check (i + 1) vs

/-- A list whose items all pass a check. -/
def listOf {α : Type} (fault : ShapeFault) (check : Value → Checked α) (v : Value) :
    Checked (List α) := do
  Checked.all (each check 0 (← items fault v))

/-- Whether an integer fits into sixty-four bits. -/
def isPosition (i : Int) : Bool :=
  -(Int.pow 2 63) ≤ i && i < Int.pow 2 63

/-- How a value is shown where it cannot be left out. -/
def shownOrKind (v : Value) : String :=
  v.shown.toOption.getD ("<unprintable " ++ v.kindName ++ " object>")

/-- How a key stands in the way to a value: integers that are not too large by themselves, and all
others but strings as they are shown. -/
def keyStep : Value → LocationStep
  | .str s => .name s
  | .int i => if isPosition i then .index i else .name (shownOrKind (.int i))
  | .bool b => .index (if b then 1 else 0)
  | v => .name (shownOrKind v)

/-- An entry of a table, whose key must be a string. -/
def entry (e : Value × Value) : Checked (Value × Value) :=
  let key := ((string e.1).under (.name "[key]")).under (keyStep e.1)
  key.map fun s => (.str s, e.2)

/-- A table with string keys and any values. -/
def table : Value → Checked ParserOptions
  | .map entries => (Checked.all (entries.map entry)).map (ParserOptions.update [])
  | _ => Checked.fail .notTable

/-- A field of a table under a check, or its default. -/
def field {α : Type} (entries : List (Value × Value)) (name : String) (missing : Checked α)
    (check : Value → Checked α) : Checked α :=
  match Value.lookup? name entries with
  | some v => (check v).under (.name name)
  | none => missing.under (.name name)

end Shape

end TranslationKeys
