import TranslationKeys.Configuration.Load
import TranslationKeys.UsedKeys

/-!
# Projects

A project lies in a file tree under a root. Its files are listed from the tree, read from it, and
parsed as its configuration says.
-/

namespace TranslationKeys.Project

/-- The files of a tree as seen from a project's root. -/
def sources (tree : FileTree) (root : Path) (ignorePatterns : List String) : Sources where
  list := Listing.files tree root ignorePatterns
  read := tree.readText

/-- Key collection for a configured project, with key files of earlier collections kept. -/
def usedKeys (config : Configuration) (current root : Path) (catalogue : Catalogue)
    (arena : Arena := {}) : UsedKeys where
  policy := ParserPolicy.project config current root
  catalogue := catalogue
  arena := arena

end TranslationKeys.Project
