/-!
# Command-line arguments

The first argument names a command, the others are its options and operands in any order. An option
that takes a value takes it from the same argument after an equals sign or, for one-letter options,
right after the letter, and otherwise from the next argument, whatever that looks like. One-letter
flags can be run together. After a double hyphen there are operands only.
-/

namespace TranslationKeys.Command

/-- What the arguments of a command set. -/
structure Settings where
  /-- The accepted extensions, if any are given. -/
  extensions : List String := []
  /-- The project root, if it is given. -/
  root : Option String := none
  /-- Whether the keys are printed as one array. -/
  asJson : Bool := false
  /-- Whether details are logged. -/
  verbose : Bool := false
  /-- Whether only the usage is asked for. -/
  help : Bool := false
  /-- The operands. -/
  operands : List String := []
  deriving DecidableEq, Repr

/-- What an option does. -/
inductive Effect where
  /-- An option without a value. -/
  | flag (apply : Settings → Settings)
  /-- An option with a value. -/
  | valued (apply : String → Settings → Settings)

/-- An option with its names. -/
structure Switch where
  /-- The long name, hyphens included. -/
  long : String
  /-- The letter of the short name. -/
  short : Option Char := none
  /-- What the option does. -/
  effect : Effect

/-- The option that asks for the usage. -/
def helpSwitch : Switch :=
  { long := "--help", effect := .flag fun s => { s with help := true } }

/-- The options of the command that lists keys. -/
def keysSwitches : List Switch :=
  [{ long := "--ext", short := some 'e',
      effect := .valued fun v s => { s with extensions := s.extensions ++ [v] } },
    { long := "--root", short := some 'r',
      effect := .valued fun v s => { s with root := some v } },
    { long := "--json", effect := .flag fun s => { s with asJson := true } },
    { long := "--verbose", short := some 'v',
      effect := .flag fun s => { s with verbose := true } },
    helpSwitch]

/-- Settings after an argument, possibly with an option that still wants its value. -/
inductive Progress where
  /-- All is said. -/
  | done (s : Settings)
  /-- The next argument is the value of an option. -/
  | wants (apply : String → Settings → Settings) (s : Settings)

/-- Reads the letters of one-letter options. -/
def readLetters (switches : List Switch) (s : Settings) : List Char → Option Progress
  | [] => some (.done s)
  | c :: cs =>
    match (switches.find? fun w => w.short == some c).map Switch.effect with
    | none => none
    | some (.flag apply) => readLetters switches (apply s) cs
    | some (.valued apply) =>
      if cs.isEmpty then some (.wants apply s) else some (.done (apply (String.ofList cs) s))

/-- Reads an argument that starts with a hyphen. -/
def readOption (switches : List Switch) (s : Settings) (arg : List Char) : Option Progress :=
  let (name, value) := arg.span (· != '=')
  match (switches.find? fun w => w.long.toList == name).map Switch.effect, value with
  | some (.flag apply), [] => some (.done (apply s))
  | some (.flag _), _ :: _ => none
  | some (.valued apply), [] => some (.wants apply s)
  | some (.valued apply), _ :: v => some (.done (apply (String.ofList v) s))
  | none, _ =>
    match arg with
    | '-' :: '-' :: _ => none
    | _ :: letters => readLetters switches s letters
    | [] => none

/-- Whether an argument is an option; a single hyphen is none. -/
def isOption (arg : String) : Bool :=
  match arg.toList with
  | '-' :: _ :: _ => true
  | _ => false

/-- Reads the arguments of a command, unless they are misused. -/
def readArguments (switches : List Switch) (s : Settings) : List String → Option Settings
  | [] => some s
  | arg :: rest =>
    if arg == "--" then some { s with operands := s.operands ++ rest }
    else if isOption arg then
      match readOption switches s arg.toList with
      | none => none
      | some (.done s) => readArguments switches s rest
      | some (.wants apply s) =>
        match rest with
        | [] => none
        | value :: rest => readArguments switches (apply value s) rest
    else readArguments switches { s with operands := s.operands ++ [arg] } rest

end TranslationKeys.Command

namespace TranslationKeys

/-- A command. -/
inductive Command where
  /-- Show the usage. -/
  | help
  /-- List the keys that the selected files use. -/
  | keys (settings : Command.Settings)
  /-- List the names of the parsers. -/
  | parsers
  deriving DecidableEq, Repr

namespace Command

/-- The command with a name. -/
def ofName? (name : String) (args : List String) : Option Command :=
  match name with
  | "keys" => do
    let s ← readArguments keysSwitches {} args
    if s.help then return help
    else if s.operands.isEmpty then none
    else return keys s
  | "parsers" => do
    let s ← readArguments [helpSwitch] {} args
    if s.help then return help
    else if s.operands.isEmpty then return parsers
    else none
  | _ => none

/-- The command that arguments state after options of the program itself, of which there is only
one; `asked` says whether it was given. -/
def ofArguments? (asked : Bool) : List String → Option Command
  | [] => if asked then some help else none
  | first :: rest =>
    if first == "--" then
      match asked, rest with
      | true, _ => some help
      | false, [] => none
      | false, name :: args => ofName? name args
    else if first == helpSwitch.long then ofArguments? true rest
    else if isOption first then none
    else if asked then some help
    else ofName? first rest

/-- The command that arguments state, unless they are misused. -/
def parse? (args : List String) : Option Command :=
  ofArguments? false args

end Command

end TranslationKeys
