import TranslationKeys.Memo.Basic
import TranslationKeys.Value

/-!
# Arguments as keys

The key of a call is made from the values of its arguments. Changeable collections are replaced by
unchangeable ones of the same content: sequences by tuples, sets by frozen sets, and mappings by
frozen sets of pairs. A value that can change and is no collection cannot be part of a key.
-/

namespace TranslationKeys

namespace Value

mutual

/-- The unchangeable form of a value; `label` names the argument in the error. -/
def freeze (label : String) : Value → Except Failure Value
  | list items => do return .tuple (← freezeItems label items)
  | tuple items => do return .tuple (← freezeItems label items)
  | map entries => do return frozenSetOf (← freezeEntries label entries)
  | set items => do return frozenSetOf (← freezeItems label items)
  | bytes changeable content =>
    if changeable then .error (.unhashable label) else .ok (.bytes changeable content)
  | v => .ok v

/-- The unchangeable forms of the items of a collection. -/
def freezeItems (label : String) : List Value → Except Failure (List Value)
  | [] => .ok []
  | v :: vs => do return (← freeze label v) :: (← freezeItems label vs)

/-- The entries of a mapping as pairs with unchangeable values. -/
def freezeEntries (label : String) : List (Value × Value) → Except Failure (List Value)
  | [] => .ok []
  | (key, v) :: entries => do
    return .tuple [key, ← freeze label v] :: (← freezeEntries label entries)

end

end Value

/-- The arguments of a call. -/
structure Arguments where
  /-- The positional arguments. -/
  positional : List Value
  /-- The keyword arguments, each name once. -/
  keywords : List (String × Value) := []
  deriving Repr

namespace Arguments

/-- The unchangeable forms of positional arguments, the first being at the given position. -/
def freezePositional : Nat → List Value → Except Failure (List Value)
  | _, [] => .ok []
  | i, v :: vs => do
    return (← v.freeze ("positional argument " ++ String.ofList (Nat.toDigits 10 i))) ::
      (← freezePositional (i + 1) vs)

/-- The unchangeable forms of keyword arguments. -/
def freezeKeywords (keywords : List (String × Value)) : Except Failure (List (String × Value)) :=
  keywords.mapM fun k => do
    return (k.1, ← k.2.freeze ("keyword argument '" ++ k.1 ++ "'"))

/-- The order of keyword arguments in a key is that of their names. -/
def byName (a b : String × Value) : Bool :=
  Text.le (Text.ofString a.1) (Text.ofString b.1)

/-- The key of a call: the positional arguments and, if there are any, the keyword arguments as one
more item. -/
def key (args : Arguments) : Except Failure Value := do
  let positional ← freezePositional 0 args.positional
  let keywords ← freezeKeywords args.keywords
  if keywords.isEmpty then return .tuple positional
  else
    let pairs := (keywords.mergeSort byName).map fun k => Value.tuple [.str k.1, k.2]
    return .tuple (positional ++ [.tuple pairs])

end Arguments

namespace Memo

/-- The name of the receiver of a call, which is always given and cannot be given again. -/
def receiverName : String := "self"

/-- Calls a memoised function by the values of its arguments. -/
def callWith {ν σ : Type} (m : Memo Value ν) (args : Arguments)
    (compute : σ → σ × Except Failure ν) (s : σ) : Memo Value ν × σ × Except Failure ν :=
  if args.keywords.any (·.1 == receiverName) then (m, s, .error .repeatedArgument)
  else
    match args.key with
    | .error f => (m, s, .error f)
    | .ok key => m.call key compute s

end Memo

end TranslationKeys
