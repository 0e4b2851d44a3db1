import TranslationKeys.Command.Run

/-!
# The command line

Reads the files below the current directory and below the root that the arguments name, runs the
command on them and prints its report. No grammars and no plugins are linked into the program.
-/

namespace TranslationKeys.Main

/-- Reads an entry of a directory and everything below it. -/
partial def readEntry (entry : IO.FS.DirEntry) : IO (String × FileTree) := do
  if ← entry.path.isDir then
    let entries ← entry.path.readDir
    return (entry.fileName, .directory (← entries.toList.mapM readEntry))
  else
    let content ← IO.FS.readBinFile entry.path
    return (entry.fileName, .file content.toList)

/-- The root that arguments name. -/
def rootOf (args : List String) : Option String :=
  match Command.parse? args with
  | some (.keys settings) => settings.root
  | _ => none

/-- No grammars at all. -/
def noGrammars : Grammars where
  installed _ := false
  tree? _ _ := none

/-- Prints a report and gives its exit status. -/
def printReport (report : Command.Report) : IO UInt32 := do
  IO.print report.stdout
  if let some message := report.stderr then IO.eprintln message
  if let some failure := report.failure then
    IO.eprintln ((failure.message?).getD "unexpected failure")
  return UInt32.ofNat report.exit

/-- Runs the command that the arguments state. -/
def runCommand (args : List String) : IO UInt32 := do
  let here ← IO.currentDir
  let home := (← IO.getEnv "HOME").map Path.ofString
  let mut env : Command.Environment :=
    { tree := .directory []
      current := Path.ofString here.toString
      grammars := noGrammars
      plugins := .grouped []
      home? := fun user => if user.isEmpty then home else none }
  let root := (env.root (rootOf args)).toOption.elim here fun p => ⟨p.text⟩
  for base in [here, root] do
    if ← base.isDir then
      let entries ← (← base.readDir).toList.mapM readEntry
      let place := (Path.ofString base.toString).collapsed.components
      env := { env with tree := env.tree.put (.directory entries) place }
  printReport (Command.run env args)

end TranslationKeys.Main

/-- Runs the command that the arguments state. -/
def main (args : List String) : IO UInt32 :=
  TranslationKeys.Main.runCommand args
