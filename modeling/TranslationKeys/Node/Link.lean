import TranslationKeys.Node.Walk

/-!
# Parent links

Linking a tree attaches the parent link of every node that a walk enters below the root. The root
itself keeps the link it has. Links are attached to what the visitor keys lead to and nothing else:
under the default keys the template of a program stays as it is.
-/

namespace TranslationKeys.Node

/-- Whether a walk enters nodes of a kind through a field. -/
def enters (keys : VisitorKeys) (kind key : String) : Bool :=
  match keys.lookup kind with
  | some names => names.contains key
  | none => true

/-- A held node, relinked and attached if the walk enters it. -/
def attachedIf (entered : Bool) (relinked held : Node) : Node :=
  if entered then relinked.attached else held

mutual

/-- A tree with the links below its root attached. -/
def linkBelow (keys : VisitorKeys) : Node → Node
  | generic m tag children => generic m tag (linkEach keys true children)
  | call m callee arguments optional =>
    call m (attachedIf (enters keys "CallExpression" "callee") (linkBelow keys callee) callee)
      (linkEach keys (enters keys "CallExpression" "arguments") arguments) optional
  | member m object property computed optional =>
    member m (attachedIf (enters keys "MemberExpression" "object") (linkBelow keys object) object)
      (attachedIf (enters keys "MemberExpression" "property") (linkBelow keys property) property)
      computed optional
  | directiveKey m name argument modifiers =>
    directiveKey m (attachedIf (enters keys "VDirectiveKey" "name") (linkBelow keys name) name)
      (linkMaybe keys (enters keys "VDirectiveKey" "argument") argument)
      (linkEach keys (enters keys "VDirectiveKey" "modifiers") modifiers)
  | container m expression =>
    container m (linkMaybe keys (enters keys "VExpressionContainer" "expression") expression)
  | tagAttribute m directive key value =>
    tagAttribute m directive (attachedIf (enters keys "VAttribute" "key") (linkBelow keys key) key)
      (linkMaybe keys (enters keys "VAttribute" "value") value)
  | startTag m attributes selfClosing =>
    startTag m (linkEach keys (enters keys "VStartTag" "attributes") attributes) selfClosing
  | element m name rawName tag children closing =>
    element m name rawName
      (attachedIf (enters keys "VElement" "start_tag") (linkBelow keys tag) tag)
      (linkEach keys (enters keys "VElement" "children") children)
      (linkMaybe keys (enters keys "VElement" "end_tag") closing)
  | program m body templateBody =>
    program m (linkEach keys (enters keys "Program" "body") body)
      (linkMaybe keys (enters keys "Program" "template_body") templateBody)
  | identifier m name => identifier m name
  | literal m value raw => literal m value raw
  | templateName m name rawName => templateName m name rawName
  | templateLiteral m value => templateLiteral m value
  | endTag m => endTag m
  | templateText m value => templateText m value

/-- An optional held node, linked if the walk enters it. -/
def linkMaybe (keys : VisitorKeys) (entered : Bool) : Option Node → Option Node
  | none => none
  | some n => some (attachedIf entered (linkBelow keys n) n)

/-- Held nodes, linked if the walk enters them. -/
def linkEach (keys : VisitorKeys) (entered : Bool) : List Node → List Node
  | [] => []
  | n :: ns => attachedIf entered (linkBelow keys n) n :: linkEach keys entered ns

end

/-- A finished tree: links attached under the default keys, and, in the root program, also the link
of the template and those below it. -/
def linked (n : Node) : Node :=
  match linkBelow VisitorKeys.default n with
  | program m body (some template) =>
    program m body (some (linkBelow VisitorKeys.default template).attached)
  | n => n

end TranslationKeys.Node
