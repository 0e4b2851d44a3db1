import TranslationKeys.Node.Basic
import TranslationKeys.Script.Escape
import TranslationKeys.Script.NumberLiteral
import TranslationKeys.Tree.Basic

/-!
# From script trees to nodes

Calls, property accesses, names and literals of a script tree become nodes of their own kind;
everything else becomes a generic node over its named children. Comments and punctuation are
dropped and single parentheses are unwrapped.

A tree is converted from the leaves up. Each tree node yields a `Converted`: the node it stands
for, and the nodes its children stand for. A parent picks what it needs from those of its children,
so a failure below a child that no field leads to is never seen.
-/

namespace TranslationKeys.Script

/-- The kinds of names. -/
def identifierKinds : List String :=
  ["identifier", "property_identifier", "private_property_identifier",
    "shorthand_property_identifier", "shorthand_property_identifier_pattern",
    "statement_identifier", "undefined"]

/-- The kinds that stand for nothing. -/
def skippedKinds : List String := ["comment", "hash_bang_line", "html_comment"]

/-- What a tree node stands for. -/
structure Converted where
  /-- The tree node. -/
  tree : TreeNode
  /-- The node it stands for, if it stands for one. -/
  node : Except Failure (Option Node)
  /-- The nodes that its named children stand for. -/
  inner : Except Failure (List Node)

namespace Converted

/-- The nodes that the named ones of a list of children stand for. -/
def collect (parts : List Converted) : Except Failure (List Node) := do
  let nodes ← (parts.filter (·.tree.named)).mapM Converted.node
  return nodes.filterMap id

/-- The node of an expected child; a placeholder if it is missing or stands for nothing. -/
def expected (part : Option Converted) : Except Failure Node := do
  match part with
  | some part => return (← part.node).getD (.generic {} "missing" [])
  | none => return .generic {} "missing" []

end Converted

/-- The span of a tree node, shifted by the place of the script in its document. -/
def spanOf (offset : Int) (n : TreeNode) : Span :=
  Span.bytes (n.start + offset) (n.stop + offset)

/-- The content of a string literal without parts: what stands between its quotes. -/
def betweenQuotes (raw : List Char) : List Char :=
  if raw.length ≥ 2 then (raw.drop 1).dropLast else []

/-- What one part of a string literal contributes. -/
def partValue (source : List UInt8) (part : TreeNode) : Except Failure Text := do
  let text ← part.text source
  if part.kind == "escape_sequence" then Escape.decode text else return Text.ofChars text

/-- The value of a string literal. -/
def stringContent (source : List UInt8) (n : TreeNode) : Except Failure Text := do
  let parts := n.children.filter TreeNode.named
  if parts.isEmpty then
    return Text.ofChars (betweenQuotes (← n.text source))
  else
    return (← parts.mapM (partValue source)).flatten

/-- The value of a constant, by its kind. -/
def constant? (kind : String) : Option Scalar :=
  match kind with
  | "true" => some (.bool true)
  | "false" => some (.bool false)
  | "null" => some .null
  | _ => none

/-- The child that a field of a tree node leads to. -/
def fieldPart? (n : TreeNode) (parts : List Converted) (name : String) : Option Converted :=
  (n.fields.lookup name).bind fun i => parts[i]?

/-- The arguments of a call. A tagged template has the template as its only argument. -/
def callArguments (part : Option Converted) : Except Failure (List Node) :=
  match part with
  | none => .ok []
  | some part =>
    if part.tree.kind == "arguments" then part.inner
    else do return [← Converted.expected (some part)]

/-- A property access whose property stands in the given field. -/
def access (mark : Mark Node) (n : TreeNode) (parts : List Converted) (propertyField : String)
    (computed : Bool) : Except Failure Node := do
  let object ← Converted.expected (fieldPart? n parts "object")
  let property ← Converted.expected (fieldPart? n parts propertyField)
  return .member mark object property computed (fieldPart? n parts "optional_chain").isSome

/-- The node a named tree node stands for, given what its children stand for. -/
def assemble (source : List UInt8) (offset : Int) (n : TreeNode) (parts : List Converted) :
    Except Failure Node := do
  let mark : Mark Node := { span := spanOf offset n }
  if identifierKinds.contains n.kind then
    return .identifier mark (String.ofList (← n.text source))
  match n.kind with
  | "call_expression" =>
    let arguments ← callArguments (fieldPart? n parts "arguments")
    let callee ← Converted.expected (fieldPart? n parts "function")
    return .call mark callee arguments (fieldPart? n parts "optional_chain").isSome
  | "member_expression" => access mark n parts "property" false
  | "subscript_expression" => access mark n parts "index" true
  | "parenthesized_expression" =>
    match ← Converted.collect parts with
    | [only] => return only
    | nodes => return .generic mark n.kind nodes
  | "string" =>
    let value ← stringContent source n
    return .literal mark (.text value) (String.ofList (← n.text source))
  | "number" =>
    let raw ← n.text source
    return .literal mark (NumberLiteral.value raw) (String.ofList raw)
  | "regex" =>
    let raw ← n.text source
    return .literal mark (.text (Text.ofChars raw)) (String.ofList raw)
  | "template_string" =>
    let substitutions := parts.filter fun part =>
      part.tree.named && part.tree.kind == "template_substitution"
    return .generic mark "TemplateLiteral" (← substitutions.mapM Converted.inner).flatten
  | "this" => return .generic mark "ThisExpression" []
  | kind =>
    match constant? kind with
    | some value => return .literal mark value kind
    | none => return .generic mark kind (← Converted.collect parts)

mutual

/-- What a tree node stands for. -/
def convert (source : List UInt8) (offset : Int) : TreeNode → Converted
  | .mk kind start stop named children fields =>
    let tree := .mk kind start stop named children fields
    let parts := convertEach source offset children
    let node :=
      if !named || skippedKinds.contains kind then .ok none
      else do return some (← assemble source offset tree parts)
    ⟨tree, node, Converted.collect parts⟩

/-- What each of a list of tree nodes stands for. -/
def convertEach (source : List UInt8) (offset : Int) : List TreeNode → List Converted
  | [] => []
  | n :: ns => convert source offset n :: convertEach source offset ns

end

end TranslationKeys.Script
