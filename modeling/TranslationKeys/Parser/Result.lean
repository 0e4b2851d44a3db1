import TranslationKeys.Node.Keys
import TranslationKeys.Node.Payload

/-!
# Parse results

A parser hands back a tree, and may supply visitor keys with it. The tree is either finished or a
plain value that still has to be read. Plugin parsers may hand back the two parts as a mapping.
-/

namespace TranslationKeys

/-- A tree as a parser hands it back. -/
inductive Ast where
  /-- A finished tree. -/
  | tree (root : Node)
  /-- A tree given as a plain value. -/
  | payload (value : Value)
  deriving Repr

namespace Ast

/-- The finished tree. -/
def finished : Ast → Except Failure Node
  | tree root => .ok root
  | payload value => Node.ofValue value

end Ast

/-- A tree with the visitor keys that its parser supplied, absent if it supplied none. -/
structure ParsedTree where
  /-- The tree. -/
  ast : Ast
  /-- The visitor keys. -/
  visitorKeys : Value := .null
  deriving Repr

namespace ParsedTree

/-- The keys of a result. -/
def keys (r : ParsedTree) : Except Failure (List Text) := do
  (← r.ast.finished).keysUnder r.visitorKeys

end ParsedTree

/-- What a parser that supplies visitor keys hands back. -/
inductive RawResult where
  /-- A result as it should be. -/
  | result (r : ParsedTree)
  /-- A plain value. -/
  | value (v : Value)
  deriving Repr

namespace RawResult

/-- Visitor keys, unless the value is no mapping. -/
def mappingOrNull : Value → Value
  | .map entries => .map entries
  | _ => .null

/-- The visitor keys in a mapping; the camel-case spelling wins. -/
def visitorKeysOf (entries : List (Value × Value)) : Value :=
  match Value.lookup? "visitorKeys" entries with
  | some keys => mappingOrNull keys
  | none => mappingOrNull ((Value.lookup? "visitor_keys" entries).getD .null)

/-- The result a mapping with a tree stands for; nothing else stands for one. -/
def coerce : RawResult → Except Failure ParsedTree
  | result r => .ok r
  | value (.map entries) =>
    match Value.lookup? "ast" entries with
    | some ast => .ok ⟨.payload ast, visitorKeysOf entries⟩
    | none => .error (.unsupportedResult (Value.map entries).kindName)
  | value v => .error (.unsupportedResult v.kindName)

end RawResult

/-- Visitor keys as a value. -/
def VisitorKeys.toValue (keys : VisitorKeys) : Value :=
  .map (keys.map fun entry => (.str entry.1, .list (entry.2.map .str)))

end TranslationKeys
