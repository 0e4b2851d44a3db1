/-!
# Memos

A memo keeps the results of earlier calls by key. Entries stand in the order of their last use,
least recent first; when there are more than the capacity, the least recent one is dropped. A call
whose key is known is a hit and does not compute anything. A failed computation leaves the memo as
it was.
-/

namespace TranslationKeys

/-- A memo. -/
structure Memo (κ ν : Type) where
  /-- Keys with their values, the least recently used first. -/
  entries : List (κ × ν) := []
  /-- The number of hits since the memo was last cleared. -/
  hits : Nat := 0
  /-- The number of entries to keep; all of them if absent. -/
  capacity : Option Int := none
  deriving Repr

namespace Memo

variable {κ ν ε σ : Type} [BEq κ]

/-- The number of entries. -/
def size (m : Memo κ ν) : Nat := m.entries.length

/-- The value of a key. -/
def find? (m : Memo κ ν) (key : κ) : Option ν :=
  (m.entries.find? fun e => e.1 == key).map Prod.snd

/-- Moves a key to the most recent place. -/
def refresh (m : Memo κ ν) (key : κ) : Memo κ ν :=
  { m with
    entries := m.entries.filter (fun e => !(e.1 == key)) ++ m.entries.filter fun e => e.1 == key
    hits := m.hits + 1 }

/-- Entries cut down to the capacity, if there are too many. -/
def trim (capacity : Option Int) (entries : List (κ × ν)) : List (κ × ν) :=
  match capacity with
  | none => entries
  | some c => if (entries.length : Int) > c then entries.drop 1 else entries

/-- Adds an entry for a new key. -/
def store (m : Memo κ ν) (key : κ) (value : ν) : Memo κ ν :=
  { m with entries := trim m.capacity (m.entries ++ [(key, value)]) }

/-- Forgets all entries and hits. -/
def clear (m : Memo κ ν) : Memo κ ν :=
  { m with entries := [], hits := 0 }

/-- The value of a key, computed if it is not known. The computation may change a state; a value
that is found leaves the state alone. -/
def call (m : Memo κ ν) (key : κ) (compute : σ → σ × Except ε ν) (s : σ) :
    Memo κ ν × σ × Except ε ν :=
  match m.find? key with
  | some value => (m.refresh key, s, .ok value)
  | none =>
    match compute s with
    | (s, .ok value) => (m.store key value, s, .ok value)
    | (s, .error e) => (m, s, .error e)

end Memo

end TranslationKeys
