import TranslationKeys.Failure
import TranslationKeys.Moment
import TranslationKeys.Number.DecimalText
import TranslationKeys.Text.CodePoint
import TranslationKeys.Text.Quoted

/-!
# Values

The values that parsers return, options carry, configurations hold and caches are keyed by:
scalars, sequences, mappings in insertion order, and sets. Two things are said of every value:
whether it counts as true, and what its text is.

Values are compared by value: numbers of different kinds are compared exactly, mappings and sets
forget their order, while lists and tuples differ. The items of collections are compared in the same
way, but for one case: not-a-number, which equals nothing, is the same item as itself.
-/

namespace TranslationKeys

/-- A value. -/
inductive Value where
  /-- The absent value. -/
  | null
  /-- A truth value. -/
  | bool (b : Bool)
  /-- An integer. -/
  | int (i : Int)
  /-- A double. -/
  | float (x : Binary64)
  /-- A string. -/
  | str (s : String)
  /-- A date or a time. -/
  | moment (m : Moment)
  /-- A list. -/
  | list (items : List Value)
  /-- A tuple. -/
  | tuple (items : List Value)
  /-- A mapping, as its entries in insertion order. -/
  | map (entries : List (Value × Value))
  /-- A set that can still change. -/
  | set (items : List Value)
  /-- A set that cannot change. -/
  | frozenSet (items : List Value)
  /-- A run of bytes, which may be changeable. -/
  | bytes (changeable : Bool) (content : List UInt8)
  /-- An object known only by its identity. -/
  | object (identity : Nat)
  deriving Repr, Inhabited

namespace Value

/-- The name of a value's kind, as error messages give it. -/
def kindName : Value → String
  | null => "NoneType"
  | bool _ => "bool"
  | int _ => "int"
  | float _ => "float"
  | str _ => "str"
  | moment m => m.kindName
  | list _ => "list"
  | tuple _ => "tuple"
  | map _ => "dict"
  | set _ => "set"
  | frozenSet _ => "frozenset"
  | bytes changeable _ => if changeable then "bytearray" else "bytes"
  | object _ => "object"

/-- Whether a value counts as true: absent values, zeros and empty collections do not. -/
def isTrue : Value → Bool
  | null => false
  | bool b => b
  | int i => i != 0
  | float x => !x.isZero
  | str s => !s.isEmpty
  | moment _ => true
  | list items => !items.isEmpty
  | tuple items => !items.isEmpty
  | map entries => !entries.isEmpty
  | set items => !items.isEmpty
  | frozenSet items => !items.isEmpty
  | bytes _ content => !content.isEmpty
  | object _ => true

/-- The values that going through a value yields: the characters of a string, the items of a
collection, the keys of a mapping, the numbers of bytes. -/
def elements? : Value → Option (List Value)
  | str s => some (s.toList.map fun c => .str (String.singleton c))
  | list items | tuple items | set items | frozenSet items => some items
  | map entries => some (entries.map Prod.fst)
  | bytes _ content => some (content.map fun b => .int b.toNat)
  | _ => none

/-- The strings that going through a value yields, if it yields nothing else. -/
def strings? (v : Value) : Option (List String) :=
  v.elements?.bind fun items => items.mapM fun
    | str s => some s
    | _ => none

/-- A list of strings. -/
def ofStrings (names : List String) : Value := list (names.map str)

mutual

/-- Whether a value can be a key: it cannot change, and no part of it can. -/
def isHashable : Value → Bool
  | list _ | map _ | set _ => false
  | bytes changeable _ => !changeable
  | tuple items => areHashable items
  | _ => true

/-- Whether all values of a list can be keys. -/
def areHashable : List Value → Bool
  | [] => true
  | v :: vs => isHashable v && areHashable vs

end

/-- The number a numeric value stands for: an integer or a double. -/
def number? : Value → Option (Int ⊕ Binary64)
  | bool b => some (.inl (if b then 1 else 0))
  | int i => some (.inl i)
  | float x => some (.inr x)
  | _ => none

/-- Whether a value is not-a-number. -/
def isNaN : Value → Bool
  | float x => x.isNaN
  | _ => false

/-- Exact comparison of an integer or a double with another. -/
def sameNumber : Int ⊕ Binary64 → Int ⊕ Binary64 → Bool
  | .inl i, .inl j => i == j
  | .inl i, .inr y => y.toInt? == some i
  | .inr x, .inl j => x.toInt? == some j
  | .inr x, .inr y => x.sameNumber y

/-- Whether two values without parts are the same item. -/
def sameLeaf (a b : Value) : Bool :=
  match a.number?, b.number? with
  | some m, some n => sameNumber m n
  | none, none =>
    match a, b with
    | null, null => true
    | str s, str t => s == t
    | moment m, moment n => m == n
    | bytes _ s, bytes _ t => s == t
    | object i, object j => i == j
    | _, _ => false
  | _, _ => false

mutual

/-- Whether two values are the same item of a collection: equal, or one object. -/
def same : Value → Value → Bool
  | list xs, b => match b with
    | list ys => sameItems xs ys
    | _ => false
  | tuple xs, b => match b with
    | tuple ys => sameItems xs ys
    | _ => false
  | map xs, b => match b with
    | map ys => xs.length == ys.length && entriesAmong xs ys
    | _ => false
  | set xs, b => match b with
    | set ys | frozenSet ys => xs.length == ys.length && itemsAmong xs ys
    | _ => false
  | frozenSet xs, b => match b with
    | set ys | frozenSet ys => xs.length == ys.length && itemsAmong xs ys
    | _ => false
  | a, b => sameLeaf a b

/-- Whether two sequences have the same items, one by one. -/
def sameItems : List Value → List Value → Bool
  | [], [] => true
  | x :: xs, y :: ys => same x y && sameItems xs ys
  | _, _ => false

/-- Whether every item of one list is the same as an item of the other. -/
def itemsAmong : List Value → List Value → Bool
  | [], _ => true
  | x :: xs, ys => ys.any (fun y => same x y) && itemsAmong xs ys

/-- Whether every entry of one mapping is the same as an entry of the other. -/
def entriesAmong : List (Value × Value) → List (Value × Value) → Bool
  | [], _ => true
  | (k, v) :: xs, ys => ys.any (fun e => same k e.1 && same v e.2) && entriesAmong xs ys

end

/-- Keys of a collection are told apart as its items are. -/
instance : BEq Value := ⟨same⟩

/-- Whether two values are equal. Values with parts are compared by their items, so that only what
is not a number itself does not equal itself. -/
def equals (a b : Value) : Bool :=
  !a.isNaN && same a b

/-- Whether a text occurs in another one. -/
def occursIn (part : List Char) : List Char → Bool
  | [] => part.isEmpty
  | c :: cs => part.isPrefixOf (c :: cs) || occursIn part cs

/-- Whether a value holds a string: a string holds its parts, a collection its items and a mapping
its keys. Other values cannot be asked. -/
def holds? (v : Value) (s : String) : Option Bool :=
  match v with
  | str text => some (occursIn s.toList text.toList)
  | list items | tuple items | set items | frozenSet items => some (items.any (same (.str s)))
  | map entries => some (entries.any fun e => same (.str s) e.1)
  | _ => none

/-- A list without the items that are the same as an earlier one. -/
def distinct (items : List Value) : List Value :=
  items.foldl (fun seen x => if seen.any (same x) then seen else seen ++ [x]) []

/-- A set of the given items. -/
def setOf (items : List Value) : Value := set (distinct items)

/-- An unchangeable set of the given items. -/
def frozenSetOf (items : List Value) : Value := frozenSet (distinct items)

/-- Entries with one more: the same key keeps its place and takes the new value. -/
def insertEntry (entries : List (Value × Value)) (key value : Value) : List (Value × Value) :=
  if entries.any (fun e => same key e.1) then
    entries.map fun e => if same key e.1 then (e.1, value) else e
  else entries ++ [(key, value)]

/-- A mapping with the given entries, later ones replacing earlier ones of the same key. -/
def mapOf (entries : List (Value × Value)) : Value :=
  map (entries.foldl (fun es e => insertEntry es e.1 e.2) [])

/-- The value of a string key. -/
def lookup? (key : String) (entries : List (Value × Value)) : Option Value :=
  (entries.find? fun e => match e.1 with
    | str s => s == key
    | _ => false).map Prod.snd

/-- The texts of items joined by commas. -/
def joinTexts (items : List String) : String :=
  String.intercalate ", " items

/-- A text between an opening and a closing one. -/
def enclose (opening closing : String) (body : String) : String :=
  opening ++ body ++ closing

mutual

/-- How a value is shown inside another one. -/
def shown : Value → Except Failure String
  | null => .ok "None"
  | bool b => .ok (if b then "True" else "False")
  | int i => match Integer.text? i with
    | some s => .ok s
    | none => .error .numeralTooLong
  | float x => .ok (DecimalText.write x)
  | str s => .ok (Quoted.quoteString s)
  | moment m => .ok m.shown
  | list items => do return enclose "[" "]" (joinTexts (← shownItems items))
  | tuple items => do
    let parts ← shownItems items
    return match parts with
      | [only] => enclose "(" ",)" only
      | parts => enclose "(" ")" (joinTexts parts)
  | map entries => do return enclose "\x7b" "\x7d" (joinTexts (← shownEntries entries))
  | set items => do
    let parts ← shownItems items
    return if parts.isEmpty then "set()" else enclose "\x7b" "\x7d" (joinTexts parts)
  | frozenSet items => do
    let parts ← shownItems items
    return if parts.isEmpty then "frozenset()"
      else enclose "frozenset(\x7b" "\x7d)" (joinTexts parts)
  | bytes changeable content =>
    let quoted := "b" ++ Quoted.quoteBytes changeable content
    .ok (if changeable then enclose "bytearray(" ")" quoted else quoted)
  | object _ => .ok "<object>"

/-- How the items of a sequence are shown. -/
def shownItems : List Value → Except Failure (List String)
  | [] => .ok []
  | x :: xs => do return (← shown x) :: (← shownItems xs)

/-- How the entries of a mapping are shown. -/
def shownEntries : List (Value × Value) → Except Failure (List String)
  | [] => .ok []
  | (k, v) :: es => do return ((← shown k) ++ ": " ++ (← shown v)) :: (← shownEntries es)

end

/-- The text of a value: a string is its own text, and a moment has one without marks. -/
def text : Value → Except Failure String
  | str s => .ok s
  | moment m => .ok m.text
  | v => v.shown

end Value

/-- The value of a literal: what a script can write down as one token, or any other value that a
literal was given. -/
inductive Scalar where
  /-- The absent value. -/
  | null
  /-- A truth value. -/
  | bool (b : Bool)
  /-- An integer. -/
  | int (i : Int)
  /-- A double. -/
  | float (x : Binary64)
  /-- A text. -/
  | text (t : Text)
  /-- A value that no script can write down as one token. -/
  | other (v : Value)
  deriving Repr

namespace Scalar

/-- The literal value with the content of a string. -/
def ofString (s : String) : Scalar := text (Text.ofString s)

/-- The literal value that is given as a value. -/
def ofValue : Value → Scalar
  | .null => null
  | .bool b => bool b
  | .int i => int i
  | .float x => float x
  | .str s => ofString s
  | v => other v

/-- Whether a literal counts as true in a script: zeros, not-a-number, the empty text and the
absent value do not. -/
def isTruthy : Scalar → Bool
  | null => false
  | bool b => b
  | int i => i != 0
  | float x => !x.isNaN && !x.isZero
  | text t => !t.isEmpty
  | other v => v.isTrue

/-- Whole numbers below this bound are written without an exponent. -/
def wholeNumberBound : Nat := Nat.pow 10 21

/-- The text a script gives a double: whole numbers below the bound without a point, infinities by
name, and all others as decimal text. -/
def floatText (x : Binary64) : String :=
  match x with
  | .infinite negative => if negative then "-Infinity" else "Infinity"
  | x =>
    match x.toInt? with
    | some i =>
      if i.natAbs < wholeNumberBound then String.ofList (Integer.digitsOf i)
      else DecimalText.write x
    | none => DecimalText.write x

/-- The text a script gives a literal. -/
def scriptText : Scalar → Except Failure Text
  | null => .ok (Text.ofString "null")
  | bool b => .ok (Text.ofString (if b then "true" else "false"))
  | int i => match Integer.text? i with
    | some s => .ok (Text.ofString s)
    | none => .error .numeralTooLong
  | float x => .ok (Text.ofString (floatText x))
  | text t => .ok t
  | other v => do return Text.ofString (← v.text)

end Scalar

end TranslationKeys
