import TranslationKeys.Tree.Basic

/-!
# Grammars

A grammar comes from a package through a factory, and may be missing. Grammars are collaborators:
all that is known of them is which factories are installed and which tree they give for a text.
-/

namespace TranslationKeys

/-- Where a grammar comes from. -/
structure GrammarOrigin where
  /-- The package that holds the grammar. -/
  package : String
  /-- The factory in the package. -/
  factory : String := "language"
  deriving DecidableEq, Repr

namespace Grammar

/-- The name of the JavaScript grammar. -/
def javascript : String := "javascript"

/-- The name of the TypeScript grammar. -/
def typescript : String := "typescript"

/-- The name of the grammar for TypeScript with markup. -/
def tsx : String := "tsx"

/-- The name of the HTML grammar. -/
def html : String := "html"

/-- The sources of the grammars that the bundled parsers use. -/
def bundledOrigins : List (String × GrammarOrigin) :=
  [(javascript, { package := "tree_sitter_javascript" }),
    (typescript, { package := "tree_sitter_typescript", factory := "language_typescript" }),
    (tsx, { package := "tree_sitter_typescript", factory := "language_tsx" }),
    (html, { package := "tree_sitter_html" })]

end Grammar

/-- The grammars at hand. -/
structure Grammars where
  /-- The source of each grammar that is known by name. -/
  sources : List (String × GrammarOrigin) := Grammar.bundledOrigins
  /-- Whether a source is installed. -/
  installed : GrammarOrigin → Bool
  /-- The tree that a grammar gives for a text. -/
  tree? : (grammar text : String) → Option SyntaxTree

namespace Grammars

/-- Whether a grammar can be used. -/
def isAvailable (g : Grammars) (grammar : String) : Bool :=
  (g.sources.lookup grammar).any g.installed

/-- Fails unless a grammar can be used. -/
def require (g : Grammars) (grammar : String) : Except Failure Unit :=
  if g.isAvailable grammar then .ok () else .error (.grammarUnavailable grammar)

/-- The tree of a text under a grammar. -/
def parse (g : Grammars) (grammar text : String) : Except Failure SyntaxTree := do
  g.require grammar
  match g.tree? grammar text with
  | some tree => return tree
  | none => throw .treeUnavailable

end Grammars

end TranslationKeys
