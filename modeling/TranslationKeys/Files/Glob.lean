import TranslationKeys.Files.Tree
import TranslationKeys.Path.Wildcard

/-!
# Expanding patterns

A path with wildcards is expanded component by component. `*`, `?` and bracket expressions match
names within one directory; a component `**` matches any number of directories, and always none at
all, whatever it follows. Names that start with a point are matched only by components that start
with one. Where several ways of expanding a pattern lead to the same path, the path is found several
times.
-/

namespace TranslationKeys.Glob

/-- The component that matches any number of directories. -/
def anyDepth : String := "**"

/-- Whether a name is hidden. -/
def isHidden (name : String) : Bool :=
  name.toList.head? == some '.'

/-- Whether a component holds wildcards. -/
def hasMagic (component : String) : Bool :=
  Wildcard.hasMagic component.toList

mutual

/-- Everything below a directory that is not hidden, as relative paths. -/
def below (onlyDirectories : Bool) : FileTree → List (List String)
  | .file _ => []
  | .directory entries => belowEach onlyDirectories entries

/-- Everything at or below the given entries that is not hidden, as relative paths. -/
def belowEach (onlyDirectories : Bool) : List (String × FileTree) → List (List String)
  | [] => []
  | (name, t) :: rest =>
    (if isHidden name || (onlyDirectories && t.isFile) then []
      else [name] :: (below onlyDirectories t).map (name :: ·)) ++
      belowEach onlyDirectories rest

end

/-- The names in a directory that a component with wildcards matches. -/
def matchingNames (component : String) (onlyDirectories : Bool) (t : FileTree) : List String :=
  let listed := t.entries.filter fun e => !onlyDirectories || e.2.isDirectory
  let visible := if isHidden component then listed else listed.filter fun e => !isHidden e.1
  (visible.map Prod.fst).filter fun name => Wildcard.matchesText component.toList name.toList

/-- A path with further components. -/
def extend (dir : Path) (more : List String) : Path :=
  { dir with components := dir.components ++ more }

/-- A path that a pattern stands for. -/
structure Match where
  /-- The path. -/
  path : Path
  /-- Whether the path is written with a slash at its end, as it is where a final `**` stands for
  no directory. -/
  slash : Bool := false

/-- The text of a path that a pattern stands for. A root directory ends in a slash already. -/
def Match.text (m : Match) : String :=
  if m.slash && !m.path.components.isEmpty then m.path.text ++ "/" else m.path.text

/-- The paths that a component leads to from a path. -/
def expandOne (tree : FileTree) (onlyDirectories : Bool) (component : String) (dir : Path) :
    List Match :=
  if component == anyDepth then
    match tree.locate dir with
    | .ok t => ⟨dir, true⟩ :: (below onlyDirectories t).map fun p => ⟨extend dir p, false⟩
    | .error _ => [⟨dir, true⟩]
  else if hasMagic component then
    match tree.locate dir with
    | .ok t => (matchingNames component onlyDirectories t).map fun name => ⟨dir.child name, false⟩
    | .error _ => []
  else if tree.contains (dir.child component) then [⟨dir.child component, false⟩]
  else []

/-- The paths that components lead to from a list of paths. -/
def expandAll (tree : FileTree) : List String → List Path → List Match
  | [], found => found.map fun p => ⟨p, false⟩
  | [last], found => found.flatMap (expandOne tree false last)
  | component :: rest, found =>
    expandAll tree rest ((found.flatMap (expandOne tree true component)).map Match.path)

/-- The components of a pattern before the first with wildcards, and all others. -/
def divide (pattern : Path) : List String × List String :=
  pattern.components.span fun c => !hasMagic c

/-- The paths that an absolute pattern stands for, in no particular order. -/
def expand (tree : FileTree) (pattern : Path) : List Match :=
  let (plain, rest) := divide pattern
  expandAll tree rest [{ pattern with components := plain }]

/-- The paths that a pattern stands for in the order of their texts. -/
def sortMatches (found : List Match) : List Match :=
  found.mergeSort fun a b => Text.le (Text.ofString a.text) (Text.ofString b.text)

/-- The files that an absolute pattern stands for, in the order of their texts. -/
def files (tree : FileTree) (pattern : Path) : List Path :=
  ((sortMatches (expand tree pattern)).map Match.path).filter tree.hasFile

end TranslationKeys.Glob
