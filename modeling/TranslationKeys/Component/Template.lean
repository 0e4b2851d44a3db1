import TranslationKeys.Component.Attribute

/-!
# Templates

An element's content is scanned for mustaches over the bytes of the source, so that an
expression that holds a `<` survives even where the HTML grammar splits it into several nodes. A
mustache that opens before a child element may close inside or after it; child elements that start
inside a mustache are part of its expression. Text that is not blank is kept between mustaches and
elements, with its character references replaced.
-/

namespace TranslationKeys.Component

/-- The position of the first two adjacent occurrences of a byte. -/
def findPair? (b : UInt8) : List UInt8 → Option Nat
  | x :: y :: rest => if x == b && y == b then some 0 else (findPair? b (y :: rest)).map (· + 1)
  | _ => none

/-- The position of the first two adjacent occurrences of a byte between two positions. -/
def findPairBetween? (source : List UInt8) (b : UInt8) (start stop : Nat) : Option Nat :=
  (findPair? b (Utf8.slice source start stop)).map (start + ·)

/-- A pair is found at or after the position where the search starts. -/
theorem le_of_findPairBetween? {source : List UInt8} {b : UInt8} {start stop p : Nat}
    (h : findPairBetween? source b start stop = some p) : start ≤ p := by
  simp only [findPairBetween?, Option.map_eq_some_iff] at h
  obtain ⟨k, _, rfl⟩ := h
  omega

/-- The byte that opens a mustache when doubled. -/
def openingByte : UInt8 := 0x7b

/-- The byte that closes a mustache when doubled. -/
def closingByte : UInt8 := 0x7d

/-- The text between two positions, unless it is blank. -/
def textBetween (ctx : Context) (start stop : Nat) : Except Failure (List Node) := do
  let raw := Utf8.slice ctx.source start stop
  if raw.all isBlankByte then return []
  let value ← Html.unescape (← decodeBytes raw)
  return [.templateText { span := Span.bytes start stop } (String.ofList value)]

/-- The mustache whose content lies between two positions. -/
def mustache (ctx : Context) (opening closing : Nat) : Except Failure Node := do
  let content ← decodeBytes (Utf8.slice ctx.source (opening + 2) closing)
  let expression ←
    Script.expression ctx.grammars ctx.grammar (String.ofList content) (opening + 2 : Nat)
  return .container { span := Span.bytes opening (closing + 2 : Nat) } expression

/-- Text and mustaches from a position up to a limit, and the position after them. A mustache that
opens before the limit may close anywhere before the end of the content. -/
def scan (ctx : Context) (stop limit cursor : Nat) : Except Failure (List Node × Nat) :=
  if _inside : cursor < limit then
    match _opens : findPairBetween? ctx.source openingByte cursor limit with
    | none => do return (← textBetween ctx cursor limit, limit)
    | some opening =>
      match _closes : findPairBetween? ctx.source closingByte (opening + 2) stop with
      | none => do return (← textBetween ctx cursor limit, limit)
      | some closing => do
        let before ← textBetween ctx cursor opening
        let expression ← mustache ctx opening closing
        let (after, final) ← scan ctx stop limit (closing + 2)
        return (before ++ expression :: after, final)
  else .ok ([], cursor)
termination_by limit - cursor
decreasing_by
  have := le_of_findPairBetween? _opens
  have := le_of_findPairBetween? _closes
  omega

/-- The kinds of opening tags. -/
def tagKinds : List String := ["start_tag", "self_closing_tag"]

/-- The kinds of elements. -/
def elementKinds : List String := ["element", "script_element", "style_element"]

/-- The kinds of elements whose content is plain text. -/
def rawTextKinds : List String := ["script_element", "style_element"]

/-- The opening tag of an element. -/
def openingTag? (element : TreeNode) : Option TreeNode :=
  element.firstOfKinds? tagKinds

/-- The name of an element as written, empty without an opening tag. -/
def elementName (source : List UInt8) (element : TreeNode) : Except Failure (List Char) :=
  match (openingTag? element).bind (·.firstOfKinds? ["tag_name"]) with
  | some name => name.text source
  | none => .ok []

/-- The node of an opening tag. -/
def tagNode (ctx : Context) : Option TreeNode → Except Failure Node
  | none => .ok (.startTag {} [] false)
  | some tag => do
    let attributes ← (tag.namedChildren.filter (·.kind == "attribute")).mapM (attributeNode ctx)
    return .startTag { span := Span.bytes tag.start tag.stop } attributes
      (tag.kind == "self_closing_tag")

/-- The node of a closing tag. -/
def closingNode (closing : TreeNode) : Node :=
  .endTag { span := Span.bytes closing.start closing.stop }

/-- The node of a run of plain text. -/
def rawText (source : List UInt8) (n : TreeNode) : Except Failure Node := do
  return .templateText { span := Span.bytes n.start n.stop } (String.ofList (← n.text source))

mutual

/-- The node of an element. -/
def elementNode (ctx : Context) : TreeNode → Except Failure Node
  | .mk kind start stop isNamed children fields => do
    let node : TreeNode := .mk kind start stop isNamed children fields
    let opening := openingTag? node
    let closing := node.firstOfKinds? ["end_tag"]
    let rawName ← elementName ctx.source node
    let tag ← tagNode ctx opening
    let content ←
      if rawTextKinds.contains kind then
        (node.namedChildren.filter (·.kind == "raw_text")).mapM (rawText ctx.source)
      else
        contentNodes ctx (closing.elim stop TreeNode.start) (opening.elim start TreeNode.stop)
          children
    return .element { span := Span.bytes start stop } (String.ofList (lowercase rawName))
      (String.ofList rawName) tag content (closing.map closingNode)

/-- The nodes of an element's content from a position on, given the children that are left. -/
def contentNodes (ctx : Context) (stop : Nat) : Nat → List TreeNode → Except Failure (List Node)
  | cursor, [] => do return (← scan ctx stop stop cursor).1
  | cursor, child :: rest =>
    if !child.named || !(elementKinds.contains child.kind || child.kind == "comment") ||
        child.start < cursor then
      contentNodes ctx stop cursor rest
    else do
      let (before, cursor) ← scan ctx stop child.start cursor
      if child.start < cursor then
        return before ++ (← contentNodes ctx stop cursor rest)
      else if child.kind == "comment" then
        return before ++ (← contentNodes ctx stop child.stop rest)
      else
        let element ← elementNode ctx child
        return before ++ element :: (← contentNodes ctx stop child.stop rest)

end

end TranslationKeys.Component
