import TranslationKeys.Parser.Candidate

/-!
# Parser catalogue

Parsers are looked up by name. Names that are not registered are searched among the plugins, which
are read at most once, when they are first needed. A plugin never replaces what is registered, and
among plugins of one name the first that loads wins. Where a lookup fails the default parser is
used, and the component parser where that fails too.
-/

namespace TranslationKeys

/-- A parser contributed from outside. -/
structure Plugin where
  /-- The group it belongs to. -/
  group : String
  /-- Its name. -/
  name : String
  /-- What it loads to; absent if loading fails. -/
  parser : Option Candidate

/-- Where plugins are read from. -/
inductive PluginSource where
  /-- Plugins that can be selected by group. -/
  | grouped (plugins : List Plugin)
  /-- A source that offers no selection, hence no plugins. -/
  | unreadable

/-- The group of parser plugins. -/
def parserGroup : String := "i18nkeys.parsers"

namespace PluginSource

/-- The plugins of a group that load, in order. -/
def loaded (source : PluginSource) (group : String) : List (String × Candidate) :=
  match source with
  | grouped plugins =>
    (plugins.filter (·.group == group)).filterMap fun p => p.parser.map fun c => (p.name, c)
  | unreadable => []

end PluginSource

/-- A catalogue of parsers. -/
structure Catalogue where
  /-- The grammars of the bundled parsers. -/
  grammars : Grammars
  /-- What is registered, by name. -/
  candidates : List (String × Candidate)
  /-- The name of the parser to fall back to. -/
  default : String := componentParserName
  /-- Whether plugins are used. -/
  usesPlugins : Bool := true
  /-- Where plugins come from. -/
  plugins : PluginSource := .grouped []
  /-- Whether the plugins have been read. -/
  pluginsRead : Bool := false
  /-- How often the source of plugins was asked. -/
  discoveries : Nat := 0

namespace Catalogue

/-- Candidates with one more, replacing one of the same name. -/
def put (candidates : List (String × Candidate)) (name : String) (c : Candidate) :
    List (String × Candidate) :=
  candidates.filter (·.1 != name) ++ [(name, c)]

/-- Candidates with one more, unless the name is taken. -/
def putIfAbsent (candidates : List (String × Candidate)) (name : String) (c : Candidate) :
    List (String × Candidate) :=
  if candidates.any (·.1 == name) then candidates else candidates ++ [(name, c)]

/-- A catalogue with the bundled parsers and others over them. -/
def new (g : Grammars) (parsers : List (String × Candidate)) (plugins : PluginSource)
    (default : String := componentParserName) (usesPlugins : Bool := true) : Catalogue where
  grammars := g
  candidates := parsers.foldl (fun cs entry => put cs entry.1 entry.2)
    (bundledParsers.map fun entry => (entry.1, Candidate.bundled g entry.2))
  default := default
  usesPlugins := usesPlugins
  plugins := plugins

/-- Registers a parser, replacing one of the same name. -/
def register (r : Catalogue) (name : String) (c : Candidate) : Catalogue :=
  { r with candidates := put r.candidates name c }

/-- Reads the plugins of a group, whatever was read before. -/
def discover (r : Catalogue) (group : String) : Catalogue × List (String × Candidate) :=
  ({ r with discoveries := r.discoveries + 1 }, r.plugins.loaded group)

/-- Reads the parser plugins unless they were read before or are not used. -/
def readPlugins (r : Catalogue) : Catalogue :=
  if !r.usesPlugins || r.pluginsRead then r
  else
    let (r, found) := r.discover parserGroup
    { r with
      pluginsRead := true
      candidates := found.foldl (fun cs entry => putIfAbsent cs entry.1 entry.2) r.candidates }

/-- The registered names in order. -/
def names (r : Catalogue) : Catalogue × List String :=
  let r := r.readPlugins
  (r, sortedStrings (r.candidates.map Prod.fst))

/-- What a name stands for at present. -/
def find? (r : Catalogue) (name : String) : Option Candidate :=
  (r.candidates.lookup name).filter (!·.isNothing)

/-- The parser of a name; plugins are read if the name stands for nothing. -/
def lookup (r : Catalogue) (name : String) : Catalogue × Option UsableParser :=
  let r := if (r.find? name).isNone then r.readPlugins else r
  (r, (r.find? name).bind (UsableParser.ofCandidate? name))

/-- The default parser, or the component parser where it cannot be used. -/
def resolveDefault (r : Catalogue) : Catalogue × UsableParser :=
  let (r, found) := r.lookup r.default
  (r, found.getD (UsableParser.component r.grammars))

/-- The parser of a name, or the default parser where the name is empty or cannot be used. -/
def resolve (r : Catalogue) (name : Option String) : Catalogue × UsableParser :=
  match name.filter (· != "") with
  | none => r.resolveDefault
  | some name =>
    match r.lookup name with
    | (r, some parser) => (r, parser)
    | (r, none) => r.resolveDefault

end Catalogue

end TranslationKeys
