import TranslationKeys.Command.Arguments
import TranslationKeys.Project

/-!
# Running commands

A command sees a file tree from a current directory and yields what it prints and its exit status:
zero for success, one for an unexpected failure, two for misuse and for a bad configuration. Keys
are printed in order, one a line or as one JSON array. Control sequences for terminals are left out
of what is printed.
-/

namespace TranslationKeys.Command

/-- Where a command runs. -/
structure Environment where
  /-- The files. -/
  tree : FileTree
  /-- The current directory. -/
  current : Path
  /-- The grammars. -/
  grammars : Grammars
  /-- The plugins. -/
  plugins : PluginSource
  /-- The home directories of users; the user without a name is the one who runs the command. -/
  home? : String → Option Path := fun _ => none

/-- What a command does to the outside. -/
structure Report where
  /-- The exit status. -/
  exit : Nat := 0
  /-- What is printed. -/
  stdout : String := ""
  /-- The error that is printed. -/
  stderr : Option String := none
  /-- The failure that ended the command unexpectedly. -/
  failure : Option Failure := none
  /-- The recorded parser calls. -/
  calls : List ParserCall := []

/-- What follows the parameters of a control sequence, if a letter ends it. -/
def controlEnd? (cs : List Char) : Option (List Char) :=
  match cs.dropWhile fun c => c == ';' || c == '?' || c.isDigit with
  | c :: rest => if c.isAlpha then some rest else none
  | [] => none

/-- Leaves out control sequences, at most `fuel` characters and sequences in all. -/
def plainWithin : Nat → List Char → List Char
  | 0, cs => cs
  | _, [] => []
  | fuel + 1, c :: cs =>
    match cs with
    | '[' :: rest =>
      match c == Char.ofNat 27, controlEnd? rest with
      | true, some after => plainWithin fuel after
      | _, _ => c :: plainWithin fuel cs
    | _ => c :: plainWithin fuel cs

/-- A text without control sequences for terminals. -/
def plain (s : String) : String :=
  String.ofList (plainWithin s.length s.toList)

/-- A character of a JSON string. -/
def jsonChar (c : Char) : List Char :=
  if c == '"' then ['\\', '"']
  else if c == '\\' then ['\\', '\\']
  else if c == '\n' then ['\\', 'n']
  else if c == '\r' then ['\\', 'r']
  else if c == '\t' then ['\\', 't']
  else if c.toNat == 8 then ['\\', 'b']
  else if c.toNat == 12 then ['\\', 'f']
  else if c.toNat < 32 then '\\' :: 'u' :: Quoted.hexDigits 4 c.toNat
  else [c]

/-- A string as JSON. -/
def jsonString (s : String) : String :=
  "\"" ++ String.ofList (s.toList.flatMap jsonChar) ++ "\""

/-- Strings as a JSON array. -/
def jsonArray (items : List String) : String :=
  "[" ++ String.intercalate ", " (items.map jsonString) ++ "]"

/-- A printed line. -/
def line (s : String) : String := plain s ++ "\n"

/-- Adds a line for each text to a report, up to the first that cannot be printed. -/
def printLines (r : Report) : List Text → Report
  | [] => r
  | t :: ts =>
    match Text.toString? t with
    | some s => printLines { r with stdout := r.stdout ++ line s } ts
    | none => { r with exit := 1, failure := some .unprintable }

/-- Adds one line with all texts as an array to a report, if all can be printed. -/
def printArray (r : Report) (ts : List Text) : Report :=
  match ts.mapM Text.toString? with
  | some items => { r with stdout := r.stdout ++ line (jsonArray items) }
  | none => { r with exit := 1, failure := some .unprintable }

/-- The mark of an error message. -/
def errorMark : String := "❌ "

/-- Whether a failure is a fault of the configuration. -/
def isConfigFault : Failure → Bool
  | .configUnreadable _ | .configNotTable _ | .configInvalid _ _ => true
  | _ => false

/-- The report of a configuration that cannot be loaded. -/
def configReport (f : Failure) : Report :=
  if isConfigFault f then { exit := 2, stderr := some (plain (errorMark ++ f.message?.getD "")) }
  else { exit := 1, failure := some f }

namespace Environment

/-- A path with the home directory in place of a first component that names one by a tilde. -/
def expandHome (env : Environment) (p : Path) : Except Failure Path :=
  match p.root, p.components with
  | .relative, first :: rest =>
    match first.toList with
    | '~' :: user =>
      match env.home? (String.ofList user) with
      | some home => .ok (Glob.extend home rest)
      | none => .error .homeUnknown
    | _ => .ok p
  | _, _ => .ok p

/-- The root that a command works on. -/
def root (env : Environment) (given : Option String) : Except Failure Path := do
  let text := given.getD ""
  if text.toList.contains (Char.ofNat 0) then throw .nulInPath
  return (env.current.absolute (← env.expandHome (Path.ofString text))).collapsed

/-- The root that a command works on and its configuration. -/
def configuration (env : Environment) (given : Option String) :
    Except Failure (Path × Configuration) := do
  let root ← env.root given
  return (root, ← Configuration.load env.tree root)

end Environment

/-- Lists the keys of the selected files. -/
def runKeys (env : Environment) (s : Settings) : Report :=
  match env.configuration s.root with
  | .error f => configReport f
  | .ok (root, config) =>
    let catalogue := Catalogue.new env.grammars [] env.plugins
    let extensions := if s.extensions.isEmpty then config.extensions else s.extensions
    let collected := (Project.usedKeys config env.current root catalogue).collect
      (Project.sources env.tree root config.ignorePatterns) env.current
      (.ofStrings s.operands) (.ofStrings extensions)
    let report : Report := { calls := Event.calls collected.events }
    match collected.result with
    | .error f => { report with exit := 1, failure := some f }
    | .ok found =>
      if s.asJson then printArray report (Text.sorted found)
      else printLines report (Text.sorted found)

/-- A parser name, with the default one marked. -/
def parserLine (default name : String) : String :=
  line (if name == default then name ++ " (default)" else name)

/-- Lists the names of the parsers. -/
def runParsers (env : Environment) : Report :=
  let (catalogue, names) := (Catalogue.new env.grammars [] env.plugins).names
  { stdout := String.join (names.map (parserLine catalogue.default)) }

/-- How commands are used. -/
def usage : String :=
  "Usage: i18nkeys keys [--ext EXT]... [--root DIR] [--json] [--verbose] PATTERN...\n" ++
    "       i18nkeys parsers\n"

/-- Runs the command that arguments state. -/
def run (env : Environment) (args : List String) : Report :=
  match parse? args with
  | none => { exit := 2 }
  | some .help => { stdout := usage }
  | some (.keys settings) => runKeys env settings
  | some .parsers => runParsers env

end TranslationKeys.Command
