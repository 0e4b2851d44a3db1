import TranslationKeys.Configuration.Shape
import TranslationKeys.Path.Pattern

/-!
# Configurations

A project configuration names the parser and its options, the extensions to look for, the files to
ignore, and overrides for files that match patterns. Later overrides win over earlier ones, option
by option.
-/

namespace TranslationKeys

/-- The parser of one file. -/
structure ParserChoice where
  /-- The name of the parser, if one is named. -/
  parser : Option String := none
  /-- The options of the parser. -/
  parserOptions : ParserOptions := []

namespace ParserChoice

/-- The configuration that a parser name and options state. -/
def check (parser options : Value) : Checked ParserChoice :=
  match (Shape.optionalString parser).under (.name "parser"),
      (Shape.table options).under (.name "parser_options") with
  | .ok parser, .ok options => .ok ⟨parser, options⟩
  | parser, options => .error (Checked.errors parser ++ Checked.errors options)

end ParserChoice

/-- Settings for the files that match patterns. -/
structure PatternOverride where
  /-- The patterns. -/
  files : List String
  /-- The name of the parser, if it is replaced. -/
  parser : Option String := none
  /-- The options to put over those of the project. -/
  parserOptions : ParserOptions := []

namespace PatternOverride

/-- Patterns: a single string, or a list of strings. -/
def checkFiles : Value → Checked (List String)
  | .str s => .ok [s]
  | v => Shape.listOf .notList Shape.string v

/-- The override a table states. -/
def check : Value → Checked PatternOverride
  | .map entries =>
    match Shape.field entries "files" (Checked.fail .missing) checkFiles,
        Shape.field entries "parser" (.ok none) Shape.optionalString,
        Shape.field entries "parser_options" (.ok []) Shape.table with
    | .ok files, .ok parser, .ok options => .ok ⟨files, parser, options⟩
    | files, parser, options =>
      .error (Checked.errors files ++ Checked.errors parser ++ Checked.errors options)
  | _ => Checked.fail .notRecord

/-- Whether an override applies to a relative path. -/
def covers (o : PatternOverride) (relative : String) : Bool :=
  PathPattern.matchesSome relative o.files

/-- A file's configuration with an override put over it. -/
def applyTo (o : PatternOverride) (c : ParserChoice) : ParserChoice where
  parser := o.parser.orElse fun _ => c.parser
  parserOptions := c.parserOptions.update o.parserOptions

end PatternOverride

/-- The extensions that are looked for unless a configuration says otherwise. -/
def standardExtensions : List String := [".js", ".vue"]

/-- The configuration of a project. -/
structure Configuration where
  /-- The name of the parser, if one is named. -/
  parser : Option String := none
  /-- The options of the parser. -/
  parserOptions : ParserOptions := []
  /-- The extensions to look for. -/
  extensions : List String := standardExtensions
  /-- The patterns of files to ignore. -/
  ignorePatterns : List String := []
  /-- The overrides, in order. -/
  overrides : List PatternOverride := []

namespace Configuration

/-- An extension with a leading point. -/
def dotted (text : String) : String :=
  if text.toList.head? == some '.' then text else "." ++ text

/-- Extensions: a string, or a sequence whose items are taken by their text. Other collections must
hold strings, which are left as they are. -/
def checkExtensions : Value → Checked (List String)
  | .str s => .ok [dotted s]
  | .list items | .tuple items =>
    match items.mapM Value.text with
    | .ok texts => .ok (texts.map dotted)
    | .error _ => Checked.fail .unwritable
  | v => Shape.listOf .notTuple Shape.string v

/-- Patterns of files to ignore. -/
def checkIgnorePatterns (v : Value) : Checked (List String) :=
  Shape.listOf .notList Shape.string v

/-- A list of overrides. -/
def checkOverrides (v : Value) : Checked (List PatternOverride) :=
  Shape.listOf .notList PatternOverride.check v

/-- The configuration a table states. Unknown fields are dropped. -/
def check : Value → Checked Configuration
  | .map entries =>
    match Shape.field entries "parser" (.ok none) Shape.optionalString,
        Shape.field entries "parser_options" (.ok []) Shape.table,
        Shape.field entries "extensions" (.ok standardExtensions) checkExtensions,
        Shape.field entries "ignore_patterns" (.ok []) checkIgnorePatterns,
        Shape.field entries "overrides" (.ok []) checkOverrides with
    | .ok parser, .ok options, .ok extensions, .ok ignored, .ok overrides =>
      .ok ⟨parser, options, extensions, ignored, overrides⟩
    | parser, options, extensions, ignored, overrides =>
      .error (Checked.errors parser ++ Checked.errors options ++ Checked.errors extensions ++
        Checked.errors ignored ++ Checked.errors overrides)
  | _ => Checked.fail .notRecord

/-- The configuration that a value states, or why it states none. -/
def ofValue (v : Value) : Except Failure Configuration :=
  (check v).mapError .invalid

/-- Whether a name is free for private use and never names a field. -/
def isPrivateName (name : String) : Bool :=
  name.toList.head? == some '_'

/-- Sets one field to a checked value. Private names can be set to anything and change nothing. -/
def assign (c : Configuration) (field : String) (v : Value) : Except Failure Configuration :=
  let place {α : Type} (x : Checked α) : Except Failure α :=
    (x.under (.name field)).mapError .invalid
  match field with
  | "parser" => do return { c with parser := ← place (Shape.optionalString v) }
  | "parser_options" => do return { c with parserOptions := ← place (Shape.table v) }
  | "extensions" => do return { c with extensions := ← place (checkExtensions v) }
  | "ignore_patterns" => do return { c with ignorePatterns := ← place (checkIgnorePatterns v) }
  | "overrides" => do return { c with overrides := ← place (checkOverrides v) }
  | _ => if isPrivateName field then .ok c else place (Checked.fail .noSuchField)

/-- The configuration of a file with the given relative path. -/
def forRelative (c : Configuration) (relative : String) : ParserChoice :=
  (c.overrides.filter (·.covers relative)).foldl (fun config o => o.applyTo config)
    ⟨c.parser, c.parserOptions⟩

/-- The configuration of a file under a project root; both paths may be relative to the current
directory. -/
def forPath (c : Configuration) (current root path : Path) : ParserChoice :=
  c.forRelative ((current.absolute path).relativeText (current.absolute root))

end Configuration

/-- Which parser to use for a file. -/
abbrev ParserPolicy := Path → Except Failure ParserChoice

namespace ParserPolicy

/-- The same parser and options for every file, if they have the right shape. -/
def fixed (parser options : Value) : Except Failure ParserPolicy := do
  let options ← ParserOptions.ofValue options
  let choice ← (ParserChoice.check parser (.map options)).mapError .invalid
  return fun _ => .ok choice

/-- The configuration of a project with its root. -/
def project (c : Configuration) (current root : Path) : ParserPolicy :=
  fun path => .ok (c.forPath current root path)

end ParserPolicy

end TranslationKeys
