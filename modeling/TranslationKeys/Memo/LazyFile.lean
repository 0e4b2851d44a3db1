import TranslationKeys.Path.Basic
import TranslationKeys.Text.Quoted

/-!
# Lazy files

A value that belongs to a file and is loaded when it is first asked for. A load that fails leaves
the file unloaded, so that the next request tries again.
-/

namespace TranslationKeys

/-- A file with a value that is loaded on demand. -/
structure LazyFile (ν : Type) where
  /-- The file. -/
  path : Path
  /-- The value, once it is loaded. -/
  value : Option ν := none
  deriving Repr

namespace LazyFile

variable {ν ε σ : Type}

/-- Whether the value is loaded. -/
def isLoaded (r : LazyFile ν) : Bool := r.value.isSome

/-- The value, loaded if it is not there yet. Loading may change a state. -/
def get (r : LazyFile ν) (load : σ → σ × Except ε ν) (s : σ) : LazyFile ν × σ × Except ε ν :=
  match r.value with
  | some value => (r, s, .ok value)
  | none =>
    match load s with
    | (s, .ok value) => ({ r with value := some value }, s, .ok value)
    | (s, .error e) => (r, s, .error e)

/-- A description of a lazy file: its path in quotes and whether it is loaded. -/
def describe (r : LazyFile ν) : String :=
  "ResourceLoader(path=" ++ Quoted.quoteString r.path.text ++ ", loaded=" ++
    (if r.isLoaded then "True" else "False") ++ ")"

end LazyFile

end TranslationKeys
