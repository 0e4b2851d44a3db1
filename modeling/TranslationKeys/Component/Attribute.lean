import TranslationKeys.Component.DirectiveKey
import TranslationKeys.Html.Reference
import TranslationKeys.Script.Parse

/-!
# Attributes

An attribute of a template is either plain, with a literal value, or a directive, whose value is an
expression. The value of `for` is the expression after `in` or `of`; the value of `slot` is no
expression; the value of `on` may be a list of statements instead.
-/

namespace TranslationKeys.Component

/-- What the parts of a template are built from. -/
structure Context where
  /-- The grammars at hand. -/
  grammars : Grammars
  /-- The encoded source of the component. -/
  source : List UInt8
  /-- The grammar of template expressions. -/
  grammar : String

/-- The kinds of an attribute's value. -/
def valueKinds : List String := ["attribute_value", "quoted_attribute_value"]

/-- Whether a value stands in quotes. -/
def isQuoted (value : TreeNode) : Bool :=
  value.kind == "quoted_attribute_value"

/-- The text of an attribute's value, its character references replaced. -/
def contentText (source : List UInt8) (value : TreeNode) : Except Failure (List Char) := do
  if isQuoted value then
    match value.firstOfKinds? ["attribute_value"] with
    | some inner => Html.unescape (← inner.text source)
    | none => return []
  else Html.unescape (← value.text source)

/-- The span of an attribute's value, quotes left out. -/
def contentSpan (value : TreeNode) : Span :=
  if isQuoted value then Span.bytes (value.start + 1) (value.stop - 1)
  else Span.bytes value.start value.stop

/-- Where an attribute's value starts, quotes left out. -/
def contentStart (value : TreeNode) : Int :=
  if isQuoted value then value.start + 1 else value.start

/-- The two words that divide the alias of a `for` directive from what it runs over. -/
def afterDivider? : List Char → Option (List Char)
  | 'i' :: 'n' :: rest | 'o' :: 'f' :: rest => some rest
  | _ => none

/-- What a `for` directive runs over: the text after the first `in` or `of` that stands between
blanks. -/
def iterable? : List Char → Option (List Char)
  | [] => none
  | c :: cs =>
    if isBlank c then
      match afterDivider? (cs.dropWhile isBlank) with
      | some (d :: rest) => if isBlank d then some (rest.dropWhile isBlank) else iterable? cs
      | _ => iterable? cs
    else iterable? cs

/-- The expression in the value of a directive. -/
def directiveValue (ctx : Context) (name text : List Char) (offset : Int) :
    Except Failure (Option Node) :=
  let expression (cs : List Char) :=
    Script.expression ctx.grammars ctx.grammar (String.ofList cs) offset
  match String.ofList name with
  | "for" =>
    match iterable? text with
    | none => .ok none
    | some source => do
      return some (.generic {} "VForExpression" (← expression source).toList)
  | "slot" => .ok none
  | "on" => do
    match ← expression text with
    | some node => return some node
    | none =>
      let statements ←
        Script.statements ctx.grammars ctx.grammar (String.ofList text) offset
      return statements.map (.generic {} "VOnExpression")
  | _ => expression text

/-- The name of an attribute as written. -/
def attributeName (source : List UInt8) (node : TreeNode) : Except Failure (List Char) :=
  match node.firstOfKinds? ["attribute_name"] with
  | some name => name.text source
  | none => .ok []

/-- The node of a plain attribute. -/
def plainAttribute (ctx : Context) (mark : Mark Node) (name : List Char) (value : Option TreeNode) :
    Except Failure Node := do
  let literal ← value.mapM fun v => do
    return Node.templateLiteral { span := contentSpan v }
      (String.ofList (← contentText ctx.source v))
  let key := Node.templateName {} (String.ofList (lowercase name)) (String.ofList name)
  return .tagAttribute mark false key literal

/-- The node of a directive. -/
def directiveAttribute (ctx : Context) (mark : Mark Node) (name : List Char) (directive : Directive)
    (value : Option TreeNode) : Except Failure Node := do
  let container ← value.mapM fun v => do
    let text ← contentText ctx.source v
    let expression ← directiveValue ctx directive.name text (contentStart v)
    return Node.container { span := contentSpan v } expression
  return .tagAttribute mark true (directive.keyNode (String.ofList name)) container

/-- The node of an attribute. -/
def attributeNode (ctx : Context) (node : TreeNode) : Except Failure Node := do
  let name ← attributeName ctx.source node
  let value := node.firstOfKinds? valueKinds
  let mark : Mark Node := { span := Span.bytes node.start node.stop }
  match Directive.parse? name with
  | none => plainAttribute ctx mark name value
  | some directive => directiveAttribute ctx mark name directive value

end TranslationKeys.Component
