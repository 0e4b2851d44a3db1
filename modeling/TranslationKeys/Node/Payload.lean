import TranslationKeys.Node.Link

/-!
# Trees given as plain values

Plugin parsers hand back trees as mappings: a `type` names the kind of node and the other entries
are its fields. Reading turns such a mapping into a node whatever it holds. Fields of the wrong
shape are dropped or replaced, unknown kinds become generic nodes over all typed mappings found in
their fields, and both layouts of a directive's name are accepted.

A value is read once, together with everything below it: a `Reading` keeps the value beside the
node it stands for, so that a node is put together from the readings of its fields. The only
failure is an integer too long to be shown as text; it surfaces only where the text is needed.
-/

namespace TranslationKeys

/-- A value with the nodes it stands for. -/
structure Reading where
  /-- The value that was read. -/
  value : Value
  /-- The node of a typed mapping. -/
  node : Option (Except Failure Node)
  /-- The nodes of the typed mappings in a sequence. -/
  nodes : Except Failure (List Node)

namespace Reading

/-- A value that stands for no nodes. -/
def leaf (v : Value) : Reading := ⟨v, none, .ok []⟩

/-- The nodes among a list of readings. -/
def collect (readings : List Reading) : Except Failure (List Node) :=
  (readings.filterMap Reading.node).mapM id

end Reading

/-- The entries of a mapping, read. -/
abbrev Payload := List (Value × Reading)

namespace Payload

/-- The reading of a field. -/
def get? (fields : Payload) (key : String) : Option Reading :=
  (fields.find? fun entry => match entry.1 with
    | .str s => s == key
    | _ => false).map Prod.snd

/-- The value of a field, absent if there is no such field. -/
def value (fields : Payload) (key : String) : Value :=
  (fields.get? key).elim .null Reading.value

/-- The text of a field, empty if there is no such field. -/
def text (fields : Payload) (key : String) : Except Failure String :=
  match fields.get? key with
  | some reading => reading.value.text
  | none => .ok ""

/-- Whether a field holds a value that counts as true. -/
def flag (fields : Payload) (key : String) : Bool :=
  (fields.value key).isTrue

/-- The node in a field that holds a typed mapping. -/
def nodeAt (fields : Payload) (key : String) : Except Failure (Option Node) :=
  match (fields.get? key).bind Reading.node with
  | some node => do return some (← node)
  | none => .ok none

/-- The node in a field, or a placeholder. -/
def expectedNode (fields : Payload) (key : String) : Except Failure Node := do
  return (← fields.nodeAt key).getD (.generic {} "Unknown" [])

/-- The nodes in a field that holds a sequence. -/
def nodesAt (fields : Payload) (key : String) : Except Failure (List Node) :=
  match fields.get? key with
  | some reading => reading.nodes
  | none => .ok []

/-- The integer a value states, if it states one. -/
def integer? : Value → Option Int
  | .int i => some i
  | .bool b => some (if b then 1 else 0)
  | _ => none

/-- The span two integers state. -/
def pairSpan? : List Value → Option Span
  | [a, b] => do return Span.bytes (← integer? a) (← integer? b)
  | _ => none

/-- The span a sequence of two integers states. -/
def rangeSpan? : Value → Option Span
  | .list items | .tuple items => pairSpan? items
  | .bytes changeable content => ((Value.bytes changeable content).elements?).bind pairSpan?
  | _ => none

/-- The end of a span that a value states as it is. -/
def offset? : Value → Option Offset
  | .int i => some (.byte i)
  | .bool b => some (.flag b)
  | _ => none

/-- The span a mapping states, as a pair or as its two ends. -/
def span (fields : Payload) : Span :=
  match rangeSpan? (fields.value "range") with
  | some span => span
  | none =>
    match offset? (fields.value "start"), offset? (fields.value "end") with
    | some start, some stop => ⟨start, stop⟩
    | _, _ => Span.none

/-- The fields of an unknown kind that are never searched for nodes. -/
def metadataFields : List String :=
  ["type", "parent", "loc", "range", "start", "end", "tokens", "comments", "leadingComments",
    "trailingComments"]

/-- Whether a field of an unknown kind is not searched for nodes. -/
def isSkipped : Value → Bool
  | .str key => metadataFields.contains key
  | _ => false

/-- The nodes in the fields of an unknown kind, in order. -/
def typedNodes (fields : Payload) : Except Failure (List Node) := do
  let found ← (fields.filter fun entry => !isSkipped entry.1).mapM fun entry =>
    match entry.2.node with
    | some node => do return [← node]
    | none => entry.2.nodes
  return found.flatten

/-- The value of a literal. What is no scalar is kept by its text. -/
def scalarOf : Value → Except Failure Scalar
  | .null => .ok .null
  | .bool b => .ok (.bool b)
  | .int i => .ok (.int i)
  | .float x => .ok (.float x)
  | .str s => .ok (Scalar.ofString s)
  | v => do return Scalar.ofString (← v.text)

/-- A field that must hold a string, or the text to take instead. -/
def stringOr (fields : Payload) (key instead : String) : String :=
  match fields.value key with
  | .str s => s
  | _ => instead

/-- The text of a value, empty if it does not count as true. -/
def textIfTrue (v : Value) : Except Failure String :=
  if v.isTrue then v.text else .ok ""

/-- The name of a directive, given as a nested name or as a bare string. -/
def keyName (fields : Payload) : Except Failure Node := do
  match ← fields.nodeAt "name" with
  | some (.templateName m name rawName) => return .templateName m name rawName
  | some (.identifier m name) => return .templateName { span := m.span } name name
  | _ =>
    let name ← textIfTrue (fields.value "name")
    return .templateName {} name name

/-- The argument of a directive, given as a node or as a bare string. -/
def keyArgument (fields : Payload) : Except Failure (Option Node) :=
  match fields.value "argument" with
  | .str s => .ok (some (.templateName {} s s))
  | _ => fields.nodeAt "argument"

/-- A name in a template. -/
def isTemplateName : Node → Bool
  | .templateName .. => true
  | _ => false

/-- An attribute. -/
def isAttribute : Node → Bool
  | .tagAttribute .. => true
  | _ => false

/-- The key of an attribute; a directive's key is always split. -/
def attributeKey (directive : Bool) (key : Option Node) : Node :=
  let name := match key with
    | some (.templateName m name rawName) => .templateName m name rawName
    | some (.directiveKey m name argument modifiers) => .directiveKey m name argument modifiers
    | _ => .templateName {} "" ""
  if directive && isTemplateName name then
    .directiveKey { span := name.mark.span } name none []
  else name

/-- The value of an attribute: a literal or a container. -/
def attributeValue : Option Node → Option Node
  | some (.templateLiteral m value) => some (.templateLiteral m value)
  | some (.container m expression) => some (.container m expression)
  | _ => none

/-- The node of a known kind, its span apart. -/
def knownNode (fields : Payload) (kind : String) : Except Failure (Option Node) :=
  match kind with
  | "Program" => do
    let template ← fields.nodeAt "templateBody"
    let body ← fields.nodesAt "body"
    return some (.program {} body (match template with
      | some (.element m name rawName tag children closing) =>
        some (.element m name rawName tag children closing)
      | _ => none))
  | "Identifier" => do return some (.identifier {} (← fields.text "name"))
  | "Literal" => do
    return some (.literal {} (← scalarOf (fields.value "value")) (fields.stringOr "raw" ""))
  | "CallExpression" => do
    let callee ← fields.expectedNode "callee"
    let arguments ← fields.nodesAt "arguments"
    return some (.call {} callee arguments (fields.flag "optional"))
  | "MemberExpression" => do
    let object ← fields.expectedNode "object"
    let property ← fields.expectedNode "property"
    return some (.member {} object property (fields.flag "computed") (fields.flag "optional"))
  | "VIdentifier" => do
    let name ← fields.text "name"
    return some (.templateName {} name (fields.stringOr "rawName" name))
  | "VDirectiveKey" => do
    let modifiers ← fields.nodesAt "modifiers"
    let argument ← fields.keyArgument
    let name ← fields.keyName
    return some (.directiveKey {} name argument (modifiers.filter isTemplateName))
  | "VLiteral" => do return some (.templateLiteral {} (← fields.text "value"))
  | "VExpressionContainer" => do return some (.container {} (← fields.nodeAt "expression"))
  | "VAttribute" => do
    let directive := fields.flag "directive"
    let key ← fields.nodeAt "key"
    let value ← fields.nodeAt "value"
    return some (.tagAttribute {} directive (attributeKey directive key) (attributeValue value))
  | "VStartTag" => do
    let attributes ← fields.nodesAt "attributes"
    return some (.startTag {} (attributes.filter isAttribute) (fields.flag "selfClosing"))
  | "VEndTag" => .ok (some (.endTag {}))
  | "VText" => do return some (.templateText {} (← fields.text "value"))
  | "VElement" => do
    let name ← fields.text "name"
    let tag ← fields.nodeAt "startTag"
    let closing ← fields.nodeAt "endTag"
    let children ← fields.nodesAt "children"
    return some (.element {} name (fields.stringOr "rawName" name)
      (match tag with
        | some (.startTag m attributes selfClosing) => .startTag m attributes selfClosing
        | _ => .startTag {} [] false)
      children
      (match closing with
        | some (.endTag m) => some (.endTag m)
        | _ => none))
  | _ => .ok none

/-- The kind a mapping states. -/
def kind (fields : Payload) : Except Failure String :=
  match fields.get? "type" with
  | some reading => reading.value.text
  | none => .ok "Unknown"

/-- The node a mapping stands for. -/
def build (fields : Payload) : Except Failure Node := do
  let kind ← fields.kind
  match ← fields.knownNode kind with
  | some node => return node.withSpan fields.span
  | none => return .generic { span := fields.span } kind (← fields.typedNodes)

/-- Whether a mapping states its kind as a string. -/
def isTyped (fields : Payload) : Bool :=
  match fields.value "type" with
  | .str _ => true
  | _ => false

end Payload

mutual

/-- Reads a value and everything below it. -/
def Reading.ofValue : Value → Reading
  | .map entries =>
    let fields := Payload.ofEntries entries
    ⟨.map entries, if Payload.isTyped fields then some (Payload.build fields) else none, .ok []⟩
  | .list items => ⟨.list items, none, Reading.collect (Reading.ofItems items)⟩
  | .tuple items => ⟨.tuple items, none, Reading.collect (Reading.ofItems items)⟩
  | v => Reading.leaf v

/-- Reads the items of a sequence. -/
def Reading.ofItems : List Value → List Reading
  | [] => []
  | v :: vs => Reading.ofValue v :: Reading.ofItems vs

/-- Reads the entries of a mapping. -/
def Payload.ofEntries : List (Value × Value) → Payload
  | [] => []
  | (key, v) :: entries => (key, Reading.ofValue v) :: Payload.ofEntries entries

end

namespace Node

/-- The node a mapping stands for, without parent links. -/
def ofEntries (entries : List (Value × Value)) : Except Failure Node :=
  Payload.build (Payload.ofEntries entries)

/-- The finished tree a value stands for; only mappings stand for one. -/
def ofValue : Value → Except Failure Node
  | .map entries => do return (← ofEntries entries).linked
  | v => .error (.unsupportedTree v.kindName)

end Node

end TranslationKeys
