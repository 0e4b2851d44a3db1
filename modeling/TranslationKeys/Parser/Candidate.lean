import TranslationKeys.Parser.Bundled

/-!
# Parser candidates

What may be registered under a parser name: nothing at all, a blueprint that would still have to be
built, or an object with up to three entry points. A candidate is usable if it has an entry point;
the one that supplies visitor keys is preferred, and a bare call counts as a plain parse.
-/

namespace TranslationKeys

/-- A recorded call of an entry point. -/
structure ParserCall where
  /-- The label of the entry point. -/
  label : String
  /-- The text that was parsed. -/
  text : String
  /-- The path that the options named. -/
  path : Value
  deriving Repr

/-- A way into a parser. Calls of labelled entry points are recorded. -/
structure EntryPoint (ρ : Type) where
  /-- The label under which calls are recorded. -/
  label : Option String := none
  /-- What a call returns. -/
  run : String → ParserOptions → Except Failure ρ

namespace EntryPoint

/-- The record of a call. -/
def calls {ρ : Type} (e : EntryPoint ρ) (text : String) (options : ParserOptions) :
    List ParserCall :=
  (e.label.map fun label => ⟨label, text, options.get ParserOptions.pathKey⟩).toList

/-- The tree of a result with visitor keys. -/
def treeOnly (e : EntryPoint RawResult) : EntryPoint Ast where
  label := e.label
  run text options := do return (← (← e.run text options).coerce).ast

end EntryPoint

/-- What is registered under a parser name. -/
inductive Candidate where
  /-- Nothing: the name is taken but stands for no parser. -/
  | nothing
  /-- A blueprint of a parser, which is none itself. -/
  | blueprint
  /-- An object with its usable entry points. -/
  | object (parseWithKeys : Option (EntryPoint RawResult)) (parse call : Option (EntryPoint Ast))

namespace Candidate

/-- A bundled parser as a candidate. -/
def bundled (g : Grammars) (p : BundledParser) : Candidate :=
  .object (some { run := fun text options => do
      return .result (← p.parseWithKeys g text options) })
    (some { run := fun text options => do return .tree (← p.parse g text options) })
    none

/-- Whether a name is taken without standing for anything. -/
def isNothing : Candidate → Bool
  | nothing => true
  | _ => false

end Candidate

/-- A usable parser. -/
structure UsableParser where
  /-- The name it was found under. -/
  name : String
  /-- The entry point for a bare tree. -/
  parse : EntryPoint Ast
  /-- The entry point that supplies visitor keys. -/
  parseWithKeys : Option (EntryPoint RawResult)

namespace UsableParser

/-- The parser a candidate offers, if it has an entry point. -/
def ofCandidate? (name : String) : Candidate → Option UsableParser
  | .nothing | .blueprint => none
  | .object (some keyed) parse _ => some ⟨name, parse.getD keyed.treeOnly, some keyed⟩
  | .object none (some parse) _ => some ⟨name, parse, none⟩
  | .object none none (some call) => some ⟨name, call, none⟩
  | .object none none none => none

/-- The component parser. -/
def component (g : Grammars) : UsableParser where
  name := componentParserName
  parse := { run := fun text options => do
    return .tree (← BundledParser.component.parse g text options) }
  parseWithKeys := some { run := fun text options => do
    return .result (← BundledParser.component.parseWithKeys g text options) }

/-- The result of a text, through the entry point that supplies visitor keys if there is one. -/
def run (p : UsableParser) (text : String) (options : ParserOptions) :
    Except Failure ParsedTree :=
  match p.parseWithKeys with
  | none => do return { ast := ← p.parse.run text options }
  | some keyed => do (← keyed.run text options).coerce

/-- The record of a run. -/
def runCalls (p : UsableParser) (text : String) (options : ParserOptions) : List ParserCall :=
  match p.parseWithKeys with
  | none => p.parse.calls text options
  | some keyed => keyed.calls text options

end UsableParser

end TranslationKeys
