import TranslationKeys.Configuration.Basic
import TranslationKeys.Parser.Catalogue

/-!
# Keys of one text

A text is parsed by the parser that its configuration names and its keys are extracted. A parser
that fails, or hands back something that is no tree, contributes no keys; only a configuration that
cannot be found is an error.
-/

namespace TranslationKeys

/-- The name of a text that comes from no file. -/
def unnamedText : String := "<text>"

/-- What came of collecting the keys of a text. -/
structure Collected where
  /-- The catalogue, which may have read its plugins. -/
  catalogue : Catalogue
  /-- The recorded parser calls. -/
  calls : List ParserCall
  /-- The keys. -/
  keys : Except Failure (List Text)

/-- The keys that a parser finds in a text; none if it fails. -/
def keysOfRun (parser : UsableParser) (text : String) (options : ParserOptions) : List Text :=
  match (do (← parser.run text options).keys : Except Failure (List Text)) with
  | .ok keys => keys
  | .error _ => []

/-- The keys of a text with a filename. -/
def collectKeys (catalogue : Catalogue) (policy : ParserPolicy) (text : String)
    (filename : Option String) : Collected :=
  let name := (filename.filter (· != "")).getD unnamedText
  match policy (Path.ofString name) with
  | .error f => ⟨catalogue, [], .error f⟩
  | .ok config =>
    let (catalogue, parser) := catalogue.resolve config.parser
    let options := config.parserOptions.forExtraction name
    ⟨catalogue, parser.runCalls text options, .ok (keysOfRun parser text options)⟩

end TranslationKeys
