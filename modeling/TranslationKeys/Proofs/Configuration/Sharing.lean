import TranslationKeys.Configuration.Basic
import Mathlib.Data.List.Forall2

/-!
# Shared option tables

An option table can be changed in place, and everyone who holds the table sees the change. Here the
tables of a configuration, of its overrides and of its answers are told apart by their places. An
answer is made in a table of its own: a copy of the project's, into which the tables of the
overrides that apply are put one by one. So asking leaves every table as it is that was there
before, and so does whatever is done to the tables of answers. The configuration stays as it is and
answers as if it were asked for the first time.
-/

namespace TranslationKeys

/-- Option tables by place. -/
abbrev OptionTables := List ParserOptions

/-- Settings for the files that match patterns, with the place of the options. -/
structure PlacedOverride where
  /-- The patterns. -/
  files : List String
  /-- The name of the parser, if it is replaced. -/
  parser : Option String
  /-- The place of the options. -/
  table : Nat

/-- What a configuration says of parsers, with the places of the options. -/
structure PlacedConfiguration where
  /-- The name of the parser, if one is named. -/
  parser : Option String
  /-- The place of the options. -/
  table : Nat
  /-- The overrides, in order. -/
  overrides : List PlacedOverride

/-- The parser of one file, with the place of the options. -/
structure PlacedChoice where
  /-- The name of the parser, if one is named. -/
  parser : Option String
  /-- The place of the options. -/
  table : Nat

/-- Option tables, and the answers that were given. -/
structure SharedTables where
  /-- The tables. -/
  tables : OptionTables
  /-- The answers. -/
  answers : List PlacedChoice := []

/-- What is done with a configuration. -/
inductive TableUse where
  /-- The configuration is asked for that of a file under a project root. -/
  | ask (root path : Path)
  /-- The table of an answer is changed by whoever got it. -/
  | change (answer : Nat) (edit : ParserOptions → ParserOptions)

namespace PlacedOverride

/-- What an override does to an answer in the making, given the place of the options of the answer.
An override that does not apply is passed over. -/
def takeInto (relative : String) (place : Nat) (o : PlacedOverride)
    (making : OptionTables × Option String) : OptionTables × Option String :=
  if PathPattern.matchesSome relative o.files then
    (making.1.modify place (·.update (making.1.getD o.table [])),
      o.parser.orElse fun _ => making.2)
  else making

/-- An override has the settings of another one, whose options stand at its place. -/
def StandsFor (tables : OptionTables) (placed : PlacedOverride) (o : PatternOverride) : Prop :=
  placed.files = o.files ∧ placed.parser = o.parser ∧
    tables[placed.table]? = some o.parserOptions

end PlacedOverride

namespace PlacedConfiguration

/-- Asks for the configuration of a file with a relative path: a copy of the project's options takes
in those of the overrides. -/
def ask (placed : PlacedConfiguration) (relative : String) (tables : OptionTables) :
    OptionTables × PlacedChoice :=
  let place := tables.length
  let made := placed.overrides.foldl (fun making o => o.takeInto relative place making)
    (tables ++ [tables.getD placed.table []], placed.parser)
  (made.1, ⟨made.2, place⟩)

/-- The tables after a use. -/
def use (placed : PlacedConfiguration) (current : Path) (s : SharedTables) :
    TableUse → SharedTables
  | .ask root path =>
    let relative := (current.absolute path).relativeText (current.absolute root)
    let asked := placed.ask relative s.tables
    ⟨asked.1, s.answers ++ [asked.2]⟩
  | .change answer edit =>
    match s.answers[answer]? with
    | some choice => { s with tables := s.tables.modify choice.table edit }
    | none => s

/-- The tables after a series of uses. -/
def run (placed : PlacedConfiguration) (current : Path) (uses : List TableUse)
    (s : SharedTables) : SharedTables :=
  uses.foldl (placed.use current) s

/-- A configuration says of parsers what another one says, whose options stand at its places. -/
structure StandsFor (tables : OptionTables) (placed : PlacedConfiguration) (c : Configuration) :
    Prop where
  /-- The same parser is named. -/
  parser : placed.parser = c.parser
  /-- The options of the project are at their place. -/
  parserOptions : tables[placed.table]? = some c.parserOptions
  /-- The overrides are the same. -/
  overrides : List.Forall₂ (PlacedOverride.StandsFor tables) placed.overrides c.overrides

end PlacedConfiguration

section Kept

variable {before tables : OptionTables} {place : Nat} {options : ParserOptions}

/-- Tables that are kept are found at their places. -/
theorem OptionTables.getElem?_of_prefix (hkept : before <+: tables)
    (h : before[place]? = some options) : tables[place]? = some options := by
  obtain ⟨hlt, rfl⟩ := List.getElem?_eq_some_iff.1 h
  exact List.prefix_iff_getElem?.1 hkept place hlt

/-- Changing a later table keeps those before. -/
theorem OptionTables.prefix_modify (hkept : before <+: tables) (hplace : before.length ≤ place)
    (edit : ParserOptions → ParserOptions) : before <+: tables.modify place edit := by
  refine List.prefix_iff_getElem?.2 fun i hi => ?_
  rw [List.getElem?_modify_ne _ _ (by omega)]
  exact List.prefix_iff_getElem?.1 hkept i hi

/-- An override that applies is put over the options of an answer in the making, any other leaves
them, and the tables that were there before are kept. -/
theorem PlacedOverride.takeInto_spec {placed : PlacedOverride} {o : PatternOverride}
    (h : placed.StandsFor before o) (relative : String) (making : OptionTables × Option String)
    (hkept : before <+: making.1) (hplace : before.length ≤ place)
    (hoptions : making.1[place]? = some options) :
    let made := placed.takeInto relative place making
    let choice := if o.covers relative then o.applyTo ⟨making.2, options⟩ else ⟨making.2, options⟩
    before <+: made.1 ∧ made.2 = choice.parser ∧ made.1[place]? = some choice.parserOptions := by
  obtain ⟨hfiles, hparser, htable⟩ := h
  have htable' : making.1.getD placed.table [] = o.parserOptions := by
    rw [List.getD, OptionTables.getElem?_of_prefix hkept htable, Option.getD_some]
  intro made choice
  cases hcovers : o.covers relative with
  | true =>
    have happlies : PathPattern.matchesSome relative placed.files = true := hfiles ▸ hcovers
    have hmade : made = (making.1.modify place (·.update o.parserOptions),
        o.parser.orElse fun _ => making.2) := by
      simp only [made, takeInto, if_pos happlies, htable', hparser]
    have hchoice : choice = o.applyTo ⟨making.2, options⟩ := if_pos hcovers
    rw [hmade, hchoice]
    refine ⟨OptionTables.prefix_modify hkept hplace _, rfl, ?_⟩
    rw [List.getElem?_modify_eq, hoptions]
    rfl
  | false =>
    have happlies : ¬ PathPattern.matchesSome relative placed.files = true := by
      rw [hfiles]
      exact ne_true_of_eq_false hcovers
    have hmade : made = making := if_neg happlies
    have hchoice : choice = ⟨making.2, options⟩ := if_neg (ne_true_of_eq_false hcovers)
    rw [hmade, hchoice]
    exact ⟨hkept, rfl, hoptions⟩

/-- The overrides that apply are put over the options of an answer in order, and the tables that
were there before are kept. -/
theorem PlacedOverride.foldl_takeInto {placed : List PlacedOverride}
    {overrides : List PatternOverride}
    (h : List.Forall₂ (PlacedOverride.StandsFor before) placed overrides) (relative : String)
    (making : OptionTables × Option String) (hkept : before <+: making.1)
    (hplace : before.length ≤ place) (hoptions : making.1[place]? = some options) :
    let made := placed.foldl (fun making o => o.takeInto relative place making) making
    let choice := (overrides.filter (·.covers relative)).foldl (fun config o => o.applyTo config)
      ⟨making.2, options⟩
    before <+: made.1 ∧ made.2 = choice.parser ∧ made.1[place]? = some choice.parserOptions := by
  -- The answer's own place lies behind the tables that are read: no override changes another one.
  induction h generalizing making options with
  | nil => exact ⟨hkept, rfl, hoptions⟩
  | @cons placed o _ _ hstands _ ih =>
    obtain ⟨hkept', hparser, hoptions'⟩ :=
      PlacedOverride.takeInto_spec hstands relative making hkept hplace hoptions
    have hrest := ih _ hkept' hoptions'
    rw [hparser] at hrest
    cases hcovers : o.covers relative <;> simpa [hcovers] using hrest

end Kept

namespace PlacedConfiguration

variable {placed : PlacedConfiguration} {c : Configuration} {before tables : OptionTables}

/-- A configuration whose tables are kept stands for the same one. -/
theorem StandsFor.of_prefix (h : placed.StandsFor before c) (hkept : before <+: tables) :
    placed.StandsFor tables c := by
  refine ⟨h.parser, OptionTables.getElem?_of_prefix hkept h.parserOptions, h.overrides.imp ?_⟩
  intro o o' ho
  obtain ⟨hfiles, hparser, htable⟩ := ho
  exact ⟨hfiles, hparser, OptionTables.getElem?_of_prefix hkept htable⟩

/-- Asking keeps all tables, and gives the parser and the options of the file. -/
theorem StandsFor.ask (h : placed.StandsFor tables c) (relative : String) :
    let asked := placed.ask relative tables
    let choice := c.forRelative relative
    tables <+: asked.1 ∧ asked.2.table = tables.length ∧ asked.2.parser = choice.parser ∧
      asked.1[asked.2.table]? = some choice.parserOptions := by
  have hcopy : (tables ++ [tables.getD placed.table []])[tables.length]? =
      some c.parserOptions := by
    simp [List.getD, h.parserOptions]
  obtain ⟨hkept, hparser, hoptions⟩ :=
    PlacedOverride.foldl_takeInto h.overrides relative (_, placed.parser)
      (List.prefix_append tables _) (Nat.le_refl _) hcopy
  rw [h.parser] at hparser hoptions
  unfold PlacedConfiguration.ask Configuration.forRelative
  rw [h.parser]
  exact ⟨h.parser ▸ hkept, rfl, hparser, hoptions⟩

/-- The tables that were there at first are kept, and the tables of all answers are others. -/
structure Keeps (before : OptionTables) (s : SharedTables) : Prop where
  /-- The tables are kept. -/
  tables : before <+: s.tables
  /-- The answers have tables of their own. -/
  answers : ∀ a ∈ s.answers, before.length ≤ a.table

/-- A use keeps the tables. -/
theorem Keeps.use {s : SharedTables} (hs : Keeps before s) (h : placed.StandsFor before c)
    (current : Path) (u : TableUse) : Keeps before (placed.use current s u) := by
  cases u with
  | ask root path =>
    obtain ⟨hkept, hplace, -⟩ := (h.of_prefix hs.tables).ask
      ((current.absolute path).relativeText (current.absolute root))
    refine ⟨hs.tables.trans hkept, fun a ha => ?_⟩
    rcases List.mem_append.1 ha with ha | ha
    · exact hs.answers a ha
    · rw [List.mem_singleton.1 ha, hplace]
      exact hs.tables.length_le
  | change answer edit =>
    unfold PlacedConfiguration.use
    cases hanswer : s.answers[answer]? with
    | none => simpa only [hanswer] using hs
    | some choice =>
      have hplace : before.length ≤ choice.table :=
        hs.answers choice (List.mem_of_getElem? hanswer)
      simpa only [hanswer] using
        ⟨OptionTables.prefix_modify hs.tables hplace edit, hs.answers⟩

/-- Any series of uses keeps the tables. -/
theorem Keeps.run {s : SharedTables} (hs : Keeps before s) (h : placed.StandsFor before c)
    (current : Path) (uses : List TableUse) : Keeps before (placed.run current uses s) := by
  induction uses generalizing s with
  | nil => exact hs
  | cons u uses ih => exact ih (hs.use h current u)

/-- However often a configuration is asked, and whatever is done to its answers, no table changes
that was there at first, and the configuration answers as it would at first. -/
theorem StandsFor.run (h : placed.StandsFor before c) (current : Path) (uses : List TableUse) :
    let tables := (placed.run current uses ⟨before, []⟩).tables
    before <+: tables ∧ placed.StandsFor tables c ∧ ∀ root path,
      let choice := c.forPath current root path
      let asked := placed.ask ((current.absolute path).relativeText (current.absolute root)) tables
      asked.2.parser = choice.parser ∧ asked.1[asked.2.table]? = some choice.parserOptions := by
  have hstart : Keeps before ⟨before, []⟩ :=
    ⟨List.prefix_refl _, fun _ ha => absurd ha List.not_mem_nil⟩
  have hkept := (hstart.run h current uses).tables
  refine ⟨hkept, h.of_prefix hkept, fun root path => ?_⟩
  obtain ⟨-, -, hparser, hoptions⟩ := (h.of_prefix hkept).ask
    ((current.absolute path).relativeText (current.absolute root))
  exact ⟨hparser, hoptions⟩

end PlacedConfiguration

end TranslationKeys
