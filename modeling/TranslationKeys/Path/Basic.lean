import TranslationKeys.Text.CodePoint
import TranslationKeys.Text.Split

/-!
# Paths

Slash-separated paths. A path has a root, which is empty for relative paths, and components. Empty
components and single points are dropped when a path is read, double points are kept: no path is
simplified by looking at the files.
-/

namespace TranslationKeys

/-- What a path starts from. -/
inductive PathRoot where
  /-- The current directory. -/
  | relative
  /-- The root directory. -/
  | slash
  /-- The alternative root directory, written with exactly two slashes. -/
  | doubleSlash
  deriving DecidableEq, Repr

/-- The text a path starts with. -/
def PathRoot.text : PathRoot → String
  | relative => ""
  | slash => "/"
  | doubleSlash => "//"

/-- A path. -/
structure Path where
  /-- What the path starts from. -/
  root : PathRoot
  /-- The components, none of which is empty or a single point. -/
  components : List String
  deriving DecidableEq, Repr

/-- The pieces of a string between its slashes. -/
def slashPieces (s : String) : List String :=
  (splitAtEach '/' s.toList).map String.ofList

namespace Path

/-- The root a path starts from. -/
def rootOf : List Char → PathRoot
  | '/' :: '/' :: '/' :: _ => .slash
  | '/' :: '/' :: _ => .doubleSlash
  | '/' :: _ => .slash
  | _ => .relative

/-- The path a string spells. -/
def ofString (s : String) : Path :=
  ⟨rootOf s.toList, (slashPieces s).filter fun piece => piece != "" && piece != "."⟩

/-- The text of a path; the path without components is written as a point. -/
def text (p : Path) : String :=
  let body := String.intercalate "/" p.components
  match p.root with
  | .relative => if p.components.isEmpty then "." else body
  | root => root.text ++ body

/-- Whether a path starts from a root directory. -/
def isAbsolute (p : Path) : Bool :=
  p.root != .relative

/-- The path from `p` on along `q`; an absolute path replaces what it is joined to. -/
def join (p q : Path) : Path :=
  if q.isAbsolute then q else ⟨p.root, p.components ++ q.components⟩

/-- A path with one more component. -/
def child (p : Path) (name : String) : Path :=
  ⟨p.root, p.components ++ [name]⟩

/-- A path made absolute against the current directory. -/
def absolute (current p : Path) : Path :=
  current.join p

/-- The last component. -/
def name (p : Path) : String :=
  p.components.getLast?.getD ""

/-- The part of a name from its last point on, unless the point starts or ends the name. -/
def suffixOfName (name : List Char) : List Char :=
  let tail := name.reverse.takeWhile (· != '.')
  if tail.isEmpty || tail.length + 1 ≥ name.length then [] else '.' :: tail.reverse

/-- The suffix of a path. -/
def suffix (p : Path) : String :=
  String.ofList (suffixOfName p.name.toList)

/-- The part of a name from its last point on, unless only points come before it. -/
def extensionOfName (name : List Char) : List Char :=
  let tail := name.reverse.takeWhile (· != '.')
  if tail.length == name.length then []
  else
    let stem := name.take (name.length - tail.length - 1)
    if stem.all (· == '.') then [] else '.' :: tail.reverse

/-- The components of `p` after those of `base`, if `p` lies at or below `base`. -/
def relativeTo? (p base : Path) : Option Path :=
  if base.root == p.root && base.components.isPrefixOf p.components then
    some ⟨.relative, p.components.drop base.components.length⟩
  else none

/-- The text of a path relative to a base, or of the path itself where it lies elsewhere. -/
def relativeText (p base : Path) : String :=
  match p.relativeTo? base with
  | some q => q.text
  | none => p.text

/-- The parts of a path that come before its last one, the root included. -/
def leadingParts (p : Path) : List String :=
  let parts := if p.isAbsolute then p.root.text :: p.components else p.components
  parts.dropLast

end Path

end TranslationKeys
