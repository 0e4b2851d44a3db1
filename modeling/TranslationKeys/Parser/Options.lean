import TranslationKeys.Path.Basic
import TranslationKeys.Text.Lowercase
import TranslationKeys.Tree.Grammar
import TranslationKeys.Value

/-!
# Parser options

Options are handed to every parser as a mapping. Two of them matter to the bundled parsers: the
path of the file, whose suffix selects a grammar, and the name of the parser for scripts.
-/

namespace TranslationKeys

/-- The options of a parser, as the entries of a mapping. -/
abbrev ParserOptions := List (Value × Value)

namespace ParserOptions

/-- The option that holds the path of the file. -/
def pathKey : String := "file_path"

/-- The option that names the parser for scripts. -/
def parserKey : String := "parser"

/-- The value of an option, absent if it is not set. -/
def get (options : ParserOptions) (key : String) : Value :=
  (Value.lookup? key options).getD .null

/-- The options with one of them set. -/
def set (options : ParserOptions) (key : String) (value : Value) : ParserOptions :=
  Value.insertEntry options (.str key) value

/-- The options with those of another mapping put over them. -/
def update (options changes : ParserOptions) : ParserOptions :=
  changes.foldl (fun os entry => Value.insertEntry os entry.1 entry.2) options

/-- The entry that a pair of a key and a value states. -/
def entryOf (pair : Value) : Except Failure (Value × Value) :=
  match pair.elements? with
  | none => .error .notIterable
  | some [key, value] => if key.isHashable then .ok (key, value) else .error .unhashableKey
  | some _ => .error .notPair

/-- The options that a value states: none if it does not count as true, those of a mapping, or
else those of a sequence of pairs, of which a later one replaces an earlier one of the same key. -/
def ofValue (v : Value) : Except Failure ParserOptions :=
  if !v.isTrue then .ok []
  else match v with
    | .map entries => .ok entries
    | v =>
      match v.elements? with
      | none => .error .notIterable
      | some pairs => do return update [] (← pairs.mapM entryOf)

/-- The path of the file as text, unless the option counts as false. -/
def path (options : ParserOptions) : Except Failure (Option String) :=
  let value := options.get pathKey
  if value.isTrue then do return some (← value.text) else .ok none

/-- The options that extraction always switches on. -/
def captureFlags : List String :=
  ["loc", "range", "raw", "tokens", "comment", "eslint_visitor_keys", "eslint_scope_manager"]

/-- The options that a file is parsed with: capture flags are forced on and the path is set. -/
def forExtraction (options : ParserOptions) (filename : String) : ParserOptions :=
  (captureFlags.foldl (fun os key => os.set key (.bool true)) options).set pathKey
    (.str filename)

end ParserOptions

/-- The suffix of a path in lower case. -/
def suffixOf (path : String) : String :=
  lowercaseString (Path.ofString path).suffix

namespace Grammar

/-- The suffixes of TypeScript files. -/
def typedSuffixes : List String := [".ts", ".mts", ".cts", ".tsx"]

/-- The script grammar of a suffix. -/
def ofSuffix (suffix : String) : String :=
  if suffix == ".tsx" then tsx
  else if typedSuffixes.contains suffix then typescript
  else javascript

/-- The script grammar of a path; without a path it is JavaScript. -/
def ofPath (path : Option String) : String :=
  path.elim javascript fun p => ofSuffix (suffixOf p)

/-- The script grammar of a path that is given as a value. -/
def ofPathValue (value : Value) : Except Failure String :=
  if !value.isTrue then .ok javascript
  else match value with
    | .str path => .ok (ofSuffix (suffixOf path))
    | _ => .error .notAPath

end Grammar

/-- The name of the script parser for files with a suffix. The option is a name, or a mapping from
script languages to names: the bare suffix is tried first, then `ts` or `js`. -/
def scriptParserOption? (options : ParserOptions) (suffix : String) : Option String :=
  let named := match options.get ParserOptions.parserKey with
    | .map entries =>
      let bareSuffix := String.ofList (suffix.toList.dropWhile (· == '.'))
      let language := if Grammar.typedSuffixes.contains suffix then "ts" else "js"
      match Value.lookup? bareSuffix entries with
      | some value => value
      | none => (Value.lookup? language entries).getD .null
    | value => value
  match named with
  | .str name => some name
  | _ => none

end TranslationKeys
