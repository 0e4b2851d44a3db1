import TranslationKeys.Files.Glob
import TranslationKeys.Memo.Arguments
import TranslationKeys.Path.Pattern

/-!
# Listing files

Patterns select files: a path of a file selects that file, a path of a directory all files below it
with one of the given extensions, and a pattern with wildcards all files it expands to. Files that
are to be ignored are listed with a flag. The targets of a selection are the listed files that are
not ignored and whose suffix is accepted.

Patterns and extensions are values as callers hand them over. Anything that can be gone through
will do for them, and anything that can be asked what it holds for extensions.
-/

namespace TranslationKeys

/-- A file found by a listing. -/
structure FoundFile where
  /-- The path of the file. -/
  path : Path
  /-- Whether the file is to be ignored. -/
  ignored : Bool := false
  deriving DecidableEq, Repr

namespace Listing

/-- Whether a walk leaves a directory alone. -/
def skipsDirectory (name : String) : Bool :=
  excludedDirectories.contains name || Glob.isHidden name

/-- The extension of the name of a file. -/
def extensionOf (name : String) : String :=
  String.ofList (Path.extensionOfName name.toList)

/-- Named items in the order of their names. -/
def sortByName {α : Type} (items : List (String × α)) : List (String × α) :=
  items.mergeSort fun a b => Text.le (Text.ofString a.1) (Text.ofString b.1)

/-- The relative paths of a walk, given the entries of the directory with what lies below each:
files with an accepted extension first, then what lies below the directories, both in the order of
their names. -/
def arrange (accepts : String → Bool) (parts : List (String × Option (List (List String)))) :
    List (List String) :=
  let files := (parts.filter fun p => p.2.isNone && accepts (extensionOf p.1)).map Prod.fst
  let directories := parts.filterMap fun p =>
    if skipsDirectory p.1 then none else p.2.map fun paths => (p.1, paths)
  (sortedStrings files).map ([·]) ++
    (sortByName directories).flatMap fun d => d.2.map (d.1 :: ·)

mutual

/-- The relative paths of the files below a directory that have an accepted extension. -/
def walk (accepts : String → Bool) : FileTree → List (List String)
  | .file _ => []
  | .directory entries => arrange accepts (walkEach accepts entries)

/-- What lies below each of a list of entries; nothing is said of files. -/
def walkEach (accepts : String → Bool) :
    List (String × FileTree) → List (String × Option (List (List String)))
  | [] => []
  | (name, t) :: rest =>
    (name, if t.isFile then none else some (walk accepts t)) :: walkEach accepts rest

end

/-- Whether extensions can be asked which ones they hold. -/
def canAsk (extensions : Value) : Bool := (extensions.holds? "").isSome

/-- The relative paths of the files below a directory whose extension is held by the given ones.
Extensions that cannot be asked fail as soon as there is a file. -/
def walkFor (extensions : Value) (t : FileTree) : Except Failure (List (List String)) :=
  let found := walk (fun extension => (extensions.holds? extension).getD true) t
  if canAsk extensions || found.isEmpty then .ok found else .error .notIterable

/-- Whether a directory that has to be searched for a pattern has a NUL character in its path. -/
def searchesNul (pattern : Path) : Bool :=
  (Glob.divide pattern).1.any fun c => c.toList.contains (Char.ofNat 0)

/-- The files that a pattern which leads nowhere by itself selects by its wildcards. -/
def expandWildcards (tree : FileTree) (pattern : String) (candidate : Path) :
    Except Failure (List Path) :=
  if !Glob.hasMagic pattern then .ok []
  else if searchesNul candidate then .error .nulInPath
  else .ok (Glob.files tree candidate)

/-- The files that one pattern selects. -/
def expand (tree : FileTree) (root : Path) (extensions : Value) (pattern : String) :
    Except Failure (List Path) := do
  let candidate := root.join (Path.ofString pattern)
  match ← tree.probe candidate with
  | some (.file _) => return [candidate]
  | some (.directory entries) =>
    return (← walkFor extensions (.directory entries)).map (Glob.extend candidate)
  | none => expandWildcards tree pattern candidate

/-- The files that a value used as a pattern selects: only strings are patterns. -/
def expandValue (tree : FileTree) (root : Path) (extensions pattern : Value) :
    Except Failure (List Path) :=
  match pattern with
  | .str s => expand tree root extensions s
  | _ => .error .notAPath

/-- The files that patterns select under a root, with the ignored ones flagged. -/
def files (tree : FileTree) (root : Path) (ignorePatterns : List String)
    (patterns extensions : Value) : Except Failure (List FoundFile) :=
  match patterns.elements? with
  | none => .error .notIterable
  | some items => do
    let found ← items.mapM (expandValue tree root extensions)
    return found.flatten.map fun p => ⟨p, Path.ignoredUnder root ignorePatterns p⟩

end Listing

/-- How patterns and extensions are turned into files. -/
abbrev FileSelector := (patterns extensions : Value) → Except Failure (List FoundFile)

/-- The targets of earlier selections, by the values of their patterns and extensions. -/
abbrev TargetMemo := Memo Value (List Path)

namespace Targets

/-- The suffixes that extensions accept. Patterns have to be something to go through, and
extensions something that yields strings. -/
def accepted (patterns extensions : Value) : Except Failure (List String) :=
  match patterns.elements?, extensions.strings? with
  | some _, some suffixes => .ok suffixes
  | _, _ => .error .notIterable

/-- The listed files that are not ignored and whose suffix is accepted, as absolute paths. -/
def select (current : Path) (suffixes : List String) (listed : List FoundFile) : List Path :=
  (listed.filter fun f => !f.ignored && suffixes.contains f.path.suffix).map fun f =>
    current.absolute f.path

/-- The targets of a selection. Files are listed, which may change a state, only if the targets are
not known yet. -/
def resolve {σ : Type} (m : TargetMemo) (current : Path)
    (list : σ → σ × Except Failure (List FoundFile)) (patterns extensions : Value) (s : σ) :
    TargetMemo × σ × Except Failure (List Path) :=
  m.callWith ⟨[patterns, extensions], []⟩
    (fun s =>
      match accepted patterns extensions with
      | .error f => (s, .error f)
      | .ok suffixes =>
        let (s, listed) := list s
        (s, listed.map (select current suffixes)))
    s

end Targets

end TranslationKeys
