import TranslationKeys.Node.Basic
import TranslationKeys.Text.Lowercase

/-!
# Visitor keys

Which fields of a node a walk enters, by kind of node. A parser may supply its own visitor keys,
with field names in camel case or in snake case; they replace the default keys kind by kind.
Generic nodes are always entered through their children, and kinds without keys through every
field that holds nodes.
-/

namespace TranslationKeys

/-- The fields to enter, by kind of node. -/
abbrev VisitorKeys := List (String × List String)

namespace VisitorKeys

/-- The default keys. The template of a program is walked on its own and is not listed. -/
def default : VisitorKeys :=
  [("Program", ["body"]),
    ("Identifier", []),
    ("Literal", []),
    ("CallExpression", ["callee", "arguments"]),
    ("MemberExpression", ["object", "property"]),
    ("VIdentifier", []),
    ("VDirectiveKey", ["name", "argument", "modifiers"]),
    ("VLiteral", []),
    ("VExpressionContainer", ["expression"]),
    ("VAttribute", ["key", "value"]),
    ("VStartTag", ["attributes"]),
    ("VEndTag", []),
    ("VText", []),
    ("VElement", ["start_tag", "children", "end_tag"])]

/-- A capital letter of ASCII starts a new word of a camel-case name. -/
def startsWord (c : Char) : Bool :=
  'A'.toNat ≤ c.toNat && c.toNat ≤ 'Z'.toNat

/-- A name with an underscore before every word after the first character. -/
def separateWords : List Char → List Char
  | [] => []
  | c :: cs => c :: cs.flatMap fun d => if startsWord d then ['_', d] else [d]

/-- A name in snake case. -/
def snakeCased (name : String) : String :=
  String.ofList (lowercase (separateWords name.toList))

/-- Visitor keys with their field names in snake case. -/
def normalised (keys : VisitorKeys) : VisitorKeys :=
  keys.map fun entry => (entry.1, entry.2.map snakeCased)

/-- Visitor keys with the fields of one kind replaced. -/
def put (keys : VisitorKeys) (kind : String) (fields : List String) : VisitorKeys :=
  if keys.any (·.1 == kind) then
    keys.map fun entry => if entry.1 == kind then (kind, fields) else entry
  else keys ++ [(kind, fields)]

/-- The default keys with those of a parser put over them. -/
def merged (overrides : Option VisitorKeys) : VisitorKeys :=
  (overrides.getD []).foldl (fun keys entry => keys.put entry.1 entry.2) default

/-- The names in a sequence; a string is the sequence of its characters, and a mapping that of its
keys. -/
def namesOf (v : Value) : Except Failure (List String) :=
  match v.strings? with
  | some names => .ok names
  | none => .error .visitorKeysNotNames

/-- The visitor keys that a value states. Only kinds named by strings can ever be looked up. -/
def ofValue : Value → Except Failure (Option VisitorKeys)
  | .null => .ok none
  | .map entries => do
    let kinds ← entries.mapM fun entry => do return (entry.1, ← namesOf entry.2)
    return some (kinds.filterMap fun entry => match entry.1 with
      | .str kind => some (kind, entry.2)
      | _ => none)
  | _ => .error .visitorKeysNotMapping

/-- The visitor keys that a value stands for when it is used as it is. A kind whose fields it gives
as null has no keys, and a kind whose fields are no names has keys that enter nothing. -/
def asGiven : Value → VisitorKeys
  | .null => default
  | .map entries => entries.filterMap fun
    | (_, .null) => none
    | (.str kind, fields) => some (kind, (namesOf fields).toOption.getD [])
    | _ => none
  | _ => []

/-- Why a walk cannot go on from nodes of a kind when a value is used as its visitor keys. -/
def fault? (v : Value) (kind : String) : Option Failure :=
  match v with
  | .null => none
  | .map entries =>
    match Value.lookup? kind entries with
    | none | some .null => none
    | some fields =>
      match namesOf fields with
      | .ok _ => none
      | .error e => some e
  | _ => some .visitorKeysNotMapping

/-- The keys a walk uses when a parser supplies the given ones. -/
def effective (supplied : Option VisitorKeys) : VisitorKeys :=
  merged (supplied.map normalised)

end VisitorKeys

namespace Node

/-- The fields of a node that hold nodes at present. -/
def occupiedFields (n : Node) : List String :=
  match n with
  | generic .. => ["children"]
  | n => (n.fields.filter fun f => !f.2.isEmpty).map Prod.fst

/-- The fields through which a walk enters a node. -/
def entryKeys (keys : VisitorKeys) (n : Node) : List String :=
  if n.isGeneric then n.occupiedFields
  else (keys.lookup n.tag).getD n.occupiedFields

end Node

end TranslationKeys
