import TranslationKeys.Component.Template

/-!
# Parsing components

A component is split by the HTML grammar into top-level blocks. The script blocks make up the body
of the program in order, each under the grammar its `lang` attribute names; the first top-level
template becomes the template of the program. The statements of a block come linked to a program of
their own, so all links are attached anew once the program is put together. Syntax errors in a
script block fail the whole component, malformed template expressions do not.
-/

namespace TranslationKeys.Component

/-- The element that holds the template of a component. -/
def templateElement : String := "template"

/-- The grammar that a `lang` attribute names. -/
def grammarOfLang (lang : List Char) : String :=
  match String.ofList (lowercase lang) with
  | "ts" | "typescript" => Grammar.typescript
  | "tsx" => Grammar.tsx
  | _ => Grammar.javascript

/-- The named attributes of a tag with their values, in order. -/
def attributeValues (source : List UInt8) (tag : TreeNode) :
    Except Failure (List (List Char × List Char)) := do
  let attributes := tag.namedChildren.filter (·.kind == "attribute")
  let entries ← attributes.mapM fun node => do
    match node.firstOfKinds? ["attribute_name"] with
    | none => return none
    | some name =>
      let value ← match node.firstOfKinds? valueKinds with
        | some value => contentText source value
        | none => pure []
      return some (lowercase (← name.text source), value)
  return entries.filterMap id

/-- The value of a block's `lang` attribute, empty without one; the last of several counts. -/
def langOf (source : List UInt8) (block : TreeNode) : Except Failure (List Char) :=
  match openingTag? block with
  | none => .ok []
  | some tag => do
    let values ← attributeValues source tag
    return (values.reverse.lookup "lang".toList).getD []

/-- The grammar named by the first script block that names one. -/
def grammarOfBlocks (source : List UInt8) : List TreeNode → Except Failure String
  | [] => .ok Grammar.javascript
  | block :: blocks =>
    if block.kind == "script_element" then do
      let lang ← langOf source block
      if lang.isEmpty then grammarOfBlocks source blocks else return grammarOfLang lang
    else grammarOfBlocks source blocks

/-- The statements of a program, taken out of it. -/
def bodyOf : Node → List Node
  | .program m body template => body.map (Node.takenFrom (.program m body template))
  | _ => []

/-- The statements of a script block. -/
def scriptBlock (ctx : Context) (block : TreeNode) : Except Failure (List Node) :=
  match block.firstOfKinds? ["raw_text"] with
  | none => .ok []
  | some raw => do
    let lang ← langOf ctx.source block
    let grammar := if lang.isEmpty then ctx.grammar else grammarOfLang lang
    let text ← raw.text ctx.source
    return bodyOf (← Script.parse ctx.grammars grammar (String.ofList text) raw.start)

/-- Whether a block is a template. -/
def isTemplate (source : List UInt8) (block : TreeNode) : Except Failure Bool := do
  if block.kind == "element" then
    return String.ofList (lowercase (← elementName source block)) == templateElement
  else return false

/-- The scripts and the template of the blocks that are left, given the template found so far. -/
def blockNodes (ctx : Context) (template : Option Node) :
    List TreeNode → Except Failure (List Node × Option Node)
  | [] => .ok ([], template)
  | block :: blocks => do
    if block.kind == "script_element" then
      let statements ← scriptBlock ctx block
      let (rest, template) ← blockNodes ctx template blocks
      return (statements ++ rest, template)
    else if template.isNone then
      if ← isTemplate ctx.source block then
        blockNodes ctx (some (← elementNode ctx block)) blocks
      else blockNodes ctx none blocks
    else blockNodes ctx template blocks

/-- The program of a component. Without a grammar for its scripts, the first script block
decides. -/
def parse (g : Grammars) (text : String) (scriptGrammar : Option String) :
    Except Failure Node := do
  let source := Utf8.encodeString text
  let document := (← g.parse Grammar.html text).root
  let blocks := document.namedChildren
  let grammar ← match scriptGrammar.filter (· != "") with
    | some grammar => pure grammar
    | none => grammarOfBlocks source blocks
  let (body, template) ← blockNodes ⟨g, source, grammar⟩ none blocks
  return (Node.program { span := Span.bytes document.start document.stop } body template).linked

end TranslationKeys.Component
