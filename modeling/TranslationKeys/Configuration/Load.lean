import TranslationKeys.Configuration.Basic
import TranslationKeys.Files.Tree
import TranslationKeys.Toml.Document

/-!
# Loading configurations

The configuration of a project stands in the tool section of its project file, or in a file of its
own; without either the defaults hold. Field names may be written with hyphens.
-/

namespace TranslationKeys.Configuration

/-- The project file, which holds the settings of many tools. -/
def sharedFile : String := "pyproject.toml"

/-- The file that holds nothing but this configuration. -/
def ownFile : String := "i18nkeys.toml"

/-- The table of the project file that holds the sections of tools. -/
def toolTable : String := "tool"

/-- The section of this tool. -/
def toolSection : String := "i18nkeys"

/-- The table in a file with the given content. -/
def readTable (file : Path) (content : List UInt8) : Except Failure Value := do
  match Utf8.decode? content with
  | none => throw .notUtf8
  | some text =>
    match Toml.read text with
    | .ok table => return table
    | .error .malformed => throw (.configUnreadable file.text)
    | .error .numeralTooLong => throw .numeralTooLong

/-- The value of a key of a table. -/
def valueAt? (table : Value) (key : String) : Option Value :=
  match table with
  | .map entries => Value.lookup? key entries
  | _ => none

/-- A name with underscores for hyphens. -/
def underscored (name : String) : String :=
  String.ofList (name.toList.map fun c => if c == '-' then '_' else c)

/-- The entries of a table under names with underscores; of two spellings of one name the later
counts. -/
def renamed (entries : List (Value × Value)) : List (Value × Value) :=
  entries.foldl (fun es e => match e.1 with
    | .str name => Value.insertEntry es (.str (underscored name)) e.2
    | key => Value.insertEntry es key e.2) []

/-- An override under names with underscores. -/
def renamedOverride : Value → Value
  | .map entries => .map (renamed entries)
  | v => v

/-- A configuration under names with underscores, overrides included. Options are left as they
are. -/
def normalised (entries : List (Value × Value)) : List (Value × Value) :=
  (renamed entries).map fun e => match e with
    | (.str "overrides", .list items) => (e.1, .list (items.map renamedOverride))
    | e => e

/-- The section in the project file, if there is one. -/
def sharedSection (tree : FileTree) (root : Path) : Except Failure (Option (Path × Value)) := do
  let file := root.child sharedFile
  match ← tree.probe file with
  | some (.file content) =>
    let table ← readTable file content
    return ((valueAt? table toolTable).bind (valueAt? · toolSection)).map ((file, ·))
  | _ => return none

/-- The content of the configuration's own file, if there is one. -/
def ownSection (tree : FileTree) (root : Path) : Except Failure (Option (Path × Value)) := do
  let file := root.child ownFile
  match ← tree.probe file with
  | some (.file content) => return some (file, ← readTable file content)
  | _ => return none

/-- The file that configures a project and what it states. -/
def section? (tree : FileTree) (root : Path) : Except Failure (Option (Path × Value)) := do
  match ← sharedSection tree root with
  | some found => return some found
  | none => ownSection tree root

/-- The configuration of the project at a root. -/
def load (tree : FileTree) (root : Path) : Except Failure Configuration := do
  match ← section? tree root with
  | none => return {}
  | some (file, .map entries) =>
    (check (.map (normalised entries))).mapError (.configInvalid file.text)
  | some (file, _) => throw (.configNotTable file.text)

end TranslationKeys.Configuration
