import TranslationKeys.Node.Walk

/-!
# Translation keys in a tree

Three shapes contribute a key: a call of a translator whose first argument is a literal, a
translation directive whose value is a literal, and the path attribute of a translation element.
Literals that are falsy in a script contribute nothing. The template of a program is walked first,
under the default visitor keys, then the program itself under the keys its parser supplied. Keys
are kept in the order they are first seen.
-/

namespace TranslationKeys

/-- The names that make a call a translator call. -/
def translatorNames : List String := ["t", "$t", "tc", "$tc"]

/-- The name of the translation directive. -/
def keyDirective : String := "t"

/-- The attribute of a translation element that names its key. -/
def keyAttribute : String := "path"

/-- The elements whose path attribute names a key. -/
def keyElements : List String := ["i18n", "i18n-t"]

namespace Node

/-- The name a callee is called by: a bare name, or the name of the property accessed last. -/
def calledName? : Node → Option String
  | member _ _ (identifier _ name) _ _ => some name
  | identifier _ name => some name
  | _ => none

/-- The key a literal contributes, unless it is falsy. -/
def literalKey? : Node → Except Failure (Option Text)
  | literal _ value _ =>
    if value.isTruthy then do return some (← value.scriptText) else .ok none
  | _ => .ok none

/-- Whether a node is named like the translation directive; only named nodes can name one. -/
def namesTranslation : Node → Except Failure Bool
  | identifier _ name | templateName _ name _ | element _ name _ _ _ _ =>
    .ok (name == keyDirective)
  | directiveKey .. => .ok false
  | _ => .error .namelessDirective

end Node

namespace Place

/-- The name of the element whose opening tag holds this place. -/
def elementNameAbove? (p : Place) : Option String :=
  match (p.parent?).bind Place.parent? with
  | some ⟨.element _ name _ _ _ _, _⟩ => some name
  | _ => none

/-- The key contributed by a call. -/
def callKey? (callee : Node) (arguments : List Node) : Except Failure (Option Text) :=
  match callee.calledName?, arguments with
  | some name, first :: _ =>
    if translatorNames.contains name then first.literalKey? else .ok none
  | _, _ => .ok none

/-- The key contributed by a directive. -/
def directiveKey? (key : Node) (value : Option Node) : Except Failure (Option Text) :=
  match key with
  | .directiveKey _ name _ _ => do
    if ← name.namesTranslation then
      match value with
      | some (.container _ (some expression)) => expression.literalKey?
      | _ => return none
    else return none
  | _ => .ok none

/-- The key contributed by a plain attribute. -/
def pathKey? (p : Place) (key : Node) (value : Option Node) : Option Text :=
  match key, value with
  | .templateName _ name _, some (.templateLiteral _ text) =>
    if name == keyAttribute && (p.elementNameAbove?).any keyElements.contains
        && !text.isEmpty then
      some (Text.ofString text)
    else none
  | _, _ => none

/-- The key contributed at a place. -/
def key? (p : Place) : Except Failure (Option Text) :=
  match p.node with
  | .call _ callee arguments _ => callKey? callee arguments
  | .tagAttribute _ directive key value =>
    if directive then directiveKey? key value else .ok (p.pathKey? key value)
  | _ => .ok none

/-- The keys contributed along a walk from a place, in order and with repetitions. -/
def keysAlong (keys : VisitorKeys) (p : Place) : Except Failure (List Text) :=
  match Walk.visits? keys p with
  | none => .error .endlessWalk
  | some visits => do
    let found ← (Visit.entered visits).mapM key?
    return found.filterMap id

end Place

/-- The items of a list, each where it is first seen. -/
def firstSeen (keys : List Text) : List Text :=
  keys.foldl (fun seen key => if seen.contains key then seen else seen ++ [key]) []

namespace Node

/-- The keys contributed by the template of a program. -/
def templateKeys (n : Node) : Except Failure (List Text) :=
  match n with
  | .program _ _ (some template) =>
    ((Place.root n).down template).keysAlong VisitorKeys.default
  | _ => .ok []

/-- The keys of a tree under the visitor keys that its parser supplied. -/
def keys (n : Node) (supplied : Option VisitorKeys) : Except Failure (List Text) := do
  let fromTemplate ← n.templateKeys
  let fromScript ← (Place.root n).keysAlong (VisitorKeys.effective supplied)
  return firstSeen (fromTemplate ++ fromScript)

/-- The keys of a tree under visitor keys that are given as a value. -/
def keysUnder (n : Node) (supplied : Value) : Except Failure (List Text) := do
  let fromTemplate ← n.templateKeys
  let supplied ← VisitorKeys.ofValue supplied
  let fromScript ← (Place.root n).keysAlong (VisitorKeys.effective supplied)
  return firstSeen (fromTemplate ++ fromScript)

end Node

end TranslationKeys
