import TranslationKeys.Path.Basic
import TranslationKeys.Path.Wildcard
import TranslationKeys.Text.Blank

/-!
# Path rules

How ignore patterns and overrides are matched against paths, and which directories are left alone.
A pattern without a slash matches names at any depth, a leading `**/` also stands for no directory
at all, and a plain path matches everything below it.
-/

namespace TranslationKeys

/-- The directories that a walk never enters, hidden ones apart. -/
def excludedDirectories : List String :=
  [".git", ".hg", ".svn", "node_modules", ".venv", "venv", "__pycache__", ".pytest_cache", ".tox",
    ".cache"]

/-- The directory whose content is always ignored. -/
def dependencyDirectory : String := "node_modules"

namespace PathPattern

/-- Removes every leading `./`. -/
def dropCurrent : List Char → List Char
  | '.' :: '/' :: rest => dropCurrent rest
  | cs => cs

/-- A pattern with forward slashes, without surrounding blanks and leading `./`. A trailing slash
is made to match everything below. -/
def normalise (pattern : List Char) : List Char :=
  let slashed := pattern.map fun c => if c == '\\' then '/' else c
  let cleaned := dropCurrent (trimBlanks slashed)
  if cleaned.getLast? == some '/' then cleaned ++ ['*', '*'] else cleaned

/-- A list without the trailing occurrences of an element. -/
def dropTrailing (c : Char) (cs : List Char) : List Char :=
  (cs.reverse.dropWhile (· == c)).reverse

/-- Whether a path lies below a plain pattern. -/
def isBelow (relative directory : List Char) : Bool :=
  (dropTrailing '/' directory ++ ['/']).isPrefixOf relative

/-- The last component of a relative path. -/
def nameOf (relative : List Char) : List Char :=
  (Path.ofString (String.ofList relative)).name.toList

/-- Whether a relative path matches a normalised pattern. -/
def matchesNormalised (relative pattern : List Char) : Bool :=
  if pattern.isEmpty then false
  else if !pattern.contains '/' then
    Wildcard.matchesText pattern (nameOf relative) || Wildcard.matchesText pattern relative
  else
    Wildcard.matchesText pattern relative ||
      (match pattern with
        | '*' :: '*' :: '/' :: rest => Wildcard.matchesText rest relative
        | _ => false) ||
      (!Wildcard.hasMagic pattern && isBelow relative pattern)

/-- Whether a relative path matches a pattern. -/
def matchesPath (relative pattern : List Char) : Bool :=
  matchesNormalised relative (normalise pattern)

/-- Whether a relative path matches one of a list of patterns. -/
def matchesSome (relative : String) (patterns : List String) : Bool :=
  patterns.any fun pattern => matchesPath relative.toList pattern.toList

end PathPattern

namespace Path

/-- Whether a path lies inside a directory whose content is always ignored. -/
def liesInIgnored (p : Path) : Bool :=
  p.leadingParts.contains dependencyDirectory

/-- Whether a path is to be ignored under a root with its ignore patterns. -/
def ignoredUnder (root : Path) (ignorePatterns : List String) (p : Path) : Bool :=
  p.liesInIgnored || PathPattern.matchesSome (p.relativeText root) ignorePatterns

end Path

end TranslationKeys
