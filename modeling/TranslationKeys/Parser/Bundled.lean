import TranslationKeys.Component.Parse
import TranslationKeys.Parser.Options
import TranslationKeys.Parser.Result

/-!
# Bundled parsers

A script parser has a grammar of its own or takes it from the path of the file. The component
parser handles `.vue` files itself and hands all others to the script parser that the options name.
-/

namespace TranslationKeys

/-- How a script parser chooses its grammar. -/
structure GrammarChoice where
  /-- The grammar; without one, the path of the file decides. -/
  grammar : Option String := none
  deriving DecidableEq, Repr

namespace GrammarChoice

/-- The grammar that the path of the file says, JavaScript if it says nothing. -/
def plain : GrammarChoice := {}

/-- TypeScript. -/
def typed : GrammarChoice := { grammar := some Grammar.typescript }

/-- The grammar for a file. TypeScript files that are so named have markup. -/
def forFile (p : GrammarChoice) (options : ParserOptions) : Except Failure String := do
  let path ← options.path
  if p.grammar == some Grammar.typescript && path.any (suffixOf · == ".tsx") then
    return Grammar.tsx
  else return (p.grammar.filter (· != "")).getD (Grammar.ofPath path)

/-- The program of a script file. -/
def parse (g : Grammars) (p : GrammarChoice) (text : String) (options : ParserOptions) :
    Except Failure Node := do
  Script.parse g (← p.forFile options) text 0

end GrammarChoice

/-- The name of the component parser. -/
def componentParserName : String := "vue-eslint-parser"

/-- The name of the script parser. -/
def plainParserName : String := "espree"

/-- The name of the TypeScript parser. -/
def typedParserName : String := "@typescript-eslint/parser"

/-- The grammar choices of the script parsers, by name. -/
def scriptChoices : List (String × GrammarChoice) :=
  [(plainParserName, .plain), (typedParserName, .typed)]

/-- The suffix of component files. -/
def componentSuffix : String := ".vue"

namespace ComponentParser

/-- The grammar of a component's scripts, if the options name a script parser. -/
def scriptGrammar (options : ParserOptions) : Except Failure (Option String) :=
  match options.get ParserOptions.parserKey with
  | .str name =>
    match scriptChoices.lookup name with
    | some parser => do return some (← parser.forFile options)
    | none => .ok none
  | _ => .ok none

/-- The grammar choice of the script parser for files with a suffix. -/
def scriptChoice (options : ParserOptions) (suffix : String) : GrammarChoice :=
  ((scriptParserOption? options suffix).bind fun name => scriptChoices.lookup name).getD .plain

/-- The program of a component, or of a script where the path has another suffix. -/
def parse (g : Grammars) (text : String) (options : ParserOptions) : Except Failure Node := do
  let suffix := (← options.path).elim "" suffixOf
  if suffix == componentSuffix then
    Component.parse g text (← scriptGrammar options)
  else (scriptChoice options suffix).parse g text options

end ComponentParser

/-- A parser that comes with the library. -/
inductive BundledParser where
  /-- The component parser. -/
  | component
  /-- A script parser. -/
  | script (parser : GrammarChoice)
  deriving DecidableEq, Repr

namespace BundledParser

/-- The program of a file. -/
def parse (g : Grammars) (p : BundledParser) (text : String) (options : ParserOptions) :
    Except Failure Node :=
  match p with
  | component => ComponentParser.parse g text options
  | script parser => parser.parse g text options

/-- The program of a file, with the default visitor keys. -/
def parseWithKeys (g : Grammars) (p : BundledParser) (text : String) (options : ParserOptions) :
    Except Failure ParsedTree := do
  return ⟨.tree (← p.parse g text options), VisitorKeys.default.toValue⟩

end BundledParser

/-- The bundled parsers by name. -/
def bundledParsers : List (String × BundledParser) :=
  [(componentParserName, .component), (plainParserName, .script .plain),
    (typedParserName, .script .typed)]

end TranslationKeys
