import TranslationKeys.Failure
import TranslationKeys.Path.Basic
import TranslationKeys.Text.Utf8

/-!
# File trees

A file system is a tree of directories and files; there are no links. Paths are followed component
by component: a double point leads from a directory to the one that holds it, and nothing leads on
from a file. Texts are read as UTF-8, with every line break turned into a line feed.
-/

namespace TranslationKeys

/-- A file or a directory. -/
inductive FileTree where
  /-- A file with its content. -/
  | file (content : List UInt8)
  /-- A directory with its named entries. -/
  | directory (entries : List (String × FileTree))
  deriving Repr, Inhabited

namespace FileTree

/-- Whether this is a file. -/
def isFile : FileTree → Bool
  | file _ => true
  | directory _ => false

/-- Whether this is a directory. -/
def isDirectory : FileTree → Bool
  | file _ => false
  | directory _ => true

/-- The entries of a directory; a file has none. -/
def entries : FileTree → List (String × FileTree)
  | file _ => []
  | directory entries => entries

/-- The number of bytes that the name of a file can have. -/
def longestName : Nat := 255

/-- The number of bytes that a path can have. -/
def longestPath : Nat := 4095

/-- Follows components from a place whose holding directories are given, innermost first. -/
def follow (above : List FileTree) (here : FileTree) : List String → Except Failure FileTree
  | [] => .ok here
  | component :: rest =>
    match here with
    | file _ => .error .notDirectory
    | directory entries =>
      if component == ".." then
        match above with
        | [] => follow [] here rest
        | up :: above => follow above up rest
      else
        match entries.lookup component with
        | some next => follow (here :: above) next rest
        | none =>
          .error (if component.utf8ByteSize > longestName then .nameTooLong else .fileNotFound)

/-- What an absolute path leads to. -/
def locate (tree : FileTree) (p : Path) : Except Failure FileTree :=
  if p.text.utf8ByteSize > longestPath then .error .nameTooLong
  else tree.follow [] p.components

/-- What an absolute path leads to, if anything; paths that are too long cannot be asked for. -/
def probe (tree : FileTree) (p : Path) : Except Failure (Option FileTree) :=
  match tree.locate p with
  | .ok found => .ok (some found)
  | .error .nameTooLong => .error .nameTooLong
  | .error _ => .ok none

/-- Whether a path leads to a file. -/
def hasFile (tree : FileTree) (p : Path) : Bool :=
  (tree.locate p).toOption.any isFile

/-- Whether a path leads anywhere. -/
def contains (tree : FileTree) (p : Path) : Bool :=
  (tree.locate p).isOk

/-- The content of a file. -/
def readBytes (tree : FileTree) (p : Path) : Except Failure (List UInt8) := do
  match ← tree.locate p with
  | file content => return content
  | directory _ => throw .isDirectory

/-- A text with all line breaks turned into line feeds. -/
def unifyNewlines : List Char → List Char
  | [] => []
  | '\r' :: '\n' :: rest => '\n' :: unifyNewlines rest
  | '\r' :: rest => '\n' :: unifyNewlines rest
  | c :: rest => c :: unifyNewlines rest

/-- The text of a file. -/
def readText (tree : FileTree) (p : Path) : Except Failure String := do
  match Utf8.decode? (← tree.readBytes p) with
  | some cs => return String.ofList (unifyNewlines cs)
  | none => throw .notUtf8

/-- Entries with one of them replaced or added. -/
def putEntry (entries : List (String × FileTree)) (name : String) (t : FileTree) :
    List (String × FileTree) :=
  if entries.any (·.1 == name) then
    entries.map fun e => if e.1 == name then (name, t) else e
  else entries ++ [(name, t)]

/-- Puts something at a place, making the directories on the way. -/
def put (tree : FileTree) (content : FileTree) : List String → FileTree
  | [] => content
  | component :: rest =>
    let below := (tree.entries.lookup component).getD (directory [])
    directory (putEntry tree.entries component (below.put content rest))

/-- Removes what is at a place. -/
def remove (tree : FileTree) : List String → FileTree
  | [] => tree
  | [name] =>
    match tree with
    | file content => file content
    | directory entries => directory (entries.filter (·.1 != name))
  | component :: rest =>
    match tree with
    | file content => file content
    | directory entries =>
      match entries.lookup component with
      | some below => directory (putEntry entries component (below.remove rest))
      | none => tree

end FileTree

/-- A path without its double points, each taking back the component before it. An absolute path
starts from the root directory afterwards. -/
def Path.collapsed (p : Path) : Path where
  root := if p.isAbsolute then .slash else .relative
  components := (p.components.foldl (fun back c =>
    if c == ".." then back.drop 1 else c :: back) []).reverse

end TranslationKeys
