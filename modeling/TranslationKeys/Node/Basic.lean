import TranslationKeys.Value

/-!
# Syntax nodes

The one tree that every parser's output is brought into: script nodes, template nodes, and generic
nodes for everything that key extraction never inspects. A node's fields may hold nodes of any
kind; which kinds they are meant to hold is a property of trees, not part of the type.

A node does not store the node that holds it. An attached parent link leads to the holder, which is
known from the way a node was reached. A node that is made by hand, or was taken out of another
tree, may have a link to some other node instead.
-/

namespace TranslationKeys

/-- One end of a span. Parsers give byte offsets; a foreign tree may state a truth value instead. -/
inductive Offset where
  /-- A byte offset. -/
  | byte (n : Int)
  /-- A truth value given in place of an offset. -/
  | flag (b : Bool)
  deriving DecidableEq, Repr

/-- The part of a source that a node covers. -/
structure Span where
  /-- Where the node starts. -/
  start : Offset
  /-- Where the node stops. -/
  stop : Offset
  deriving DecidableEq, Repr

namespace Span

/-- A span between two byte offsets. -/
def bytes (start stop : Int) : Span := ⟨.byte start, .byte stop⟩

/-- The span of a node without a place in the source. -/
def none : Span := bytes 0 0

end Span

/-- Where the parent link of a node leads. -/
inductive Link (ν : Type) where
  /-- Nowhere. -/
  | absent
  /-- To the node that holds this one. -/
  | holder
  /-- To a node that was given by hand. -/
  | given (node : ν)
  deriving Repr

/-- What all nodes carry: their span and their parent link. -/
structure Mark (ν : Type) where
  /-- The part of the source the node covers. -/
  span : Span := Span.none
  /-- The parent link. -/
  parent : Link ν := .absent
  deriving Repr

/-- A syntax node. -/
inductive Node where
  /-- A node of some other kind; only its children matter. -/
  | generic (mark : Mark Node) (tag : String) (children : List Node)
  /-- A name in a script, property names included. -/
  | identifier (mark : Mark Node) (name : String)
  /-- A literal: its value and the source text it was written as. -/
  | literal (mark : Mark Node) (value : Scalar) (raw : String)
  /-- A call of a function or method. -/
  | call (mark : Mark Node) (callee : Node) (arguments : List Node) (optional : Bool)
  /-- An access to a property; `computed` marks access by subscript. -/
  | member (mark : Mark Node) (object property : Node) (computed optional : Bool)
  /-- A part of an attribute or directive name in a template. -/
  | templateName (mark : Mark Node) (name rawName : String)
  /-- The name of a directive, split into name, argument and modifiers. -/
  | directiveKey (mark : Mark Node) (name : Node) (argument : Option Node) (modifiers : List Node)
  /-- The value of a plain attribute. -/
  | templateLiteral (mark : Mark Node) (value : String)
  /-- A mustache or a directive's value; the expression is absent if it was empty or malformed. -/
  | container (mark : Mark Node) (expression : Option Node)
  /-- An attribute of a template element. -/
  | tagAttribute (mark : Mark Node) (directive : Bool) (key : Node) (value : Option Node)
  /-- The opening tag of an element. -/
  | startTag (mark : Mark Node) (attributes : List Node) (selfClosing : Bool)
  /-- The closing tag of an element. -/
  | endTag (mark : Mark Node)
  /-- Template text outside mustaches. -/
  | templateText (mark : Mark Node) (value : String)
  /-- A template element; `name` is lower case, `rawName` as written. -/
  | element (mark : Mark Node) (name rawName : String) (startTag : Node) (children : List Node)
      (endTag : Option Node)
  /-- The root of a source file, with the template of a component. -/
  | program (mark : Mark Node) (body : List Node) (templateBody : Option Node)
  deriving Repr

/-- A program without content. -/
instance : Inhabited Node := ⟨.program {} [] none⟩

namespace Node

/-- The mark of a node. -/
def mark : Node → Mark Node
  | generic m _ _ | identifier m _ | literal m _ _ | call m _ _ _ | member m _ _ _ _
  | templateName m _ _ | directiveKey m _ _ _ | templateLiteral m _ | container m _
  | tagAttribute m _ _ _ | startTag m _ _ | endTag m | templateText m _ | element m _ _ _ _ _
  | program m _ _ => m

/-- A node with another mark. -/
def withMark (m : Mark Node) : Node → Node
  | generic _ tag children => generic m tag children
  | identifier _ name => identifier m name
  | literal _ value raw => literal m value raw
  | call _ callee arguments optional => call m callee arguments optional
  | member _ object property computed optional => member m object property computed optional
  | templateName _ name rawName => templateName m name rawName
  | directiveKey _ name argument modifiers => directiveKey m name argument modifiers
  | templateLiteral _ value => templateLiteral m value
  | container _ expression => container m expression
  | tagAttribute _ directive key value => tagAttribute m directive key value
  | startTag _ attributes selfClosing => startTag m attributes selfClosing
  | endTag _ => endTag m
  | templateText _ value => templateText m value
  | element _ name rawName tag children closing => element m name rawName tag children closing
  | program _ body templateBody => program m body templateBody

/-- A node with its parent link attached. -/
def attached (n : Node) : Node :=
  n.withMark { n.mark with parent := .holder }

/-- A node taken out of the node that held it: its parent link still leads there. -/
def takenFrom (holder n : Node) : Node :=
  n.withMark { n.mark with parent := .given holder }

/-- The node that the parent link was given by hand. -/
def givenParent? (n : Node) : Option Node :=
  match n.mark.parent with
  | .given m => some m
  | _ => none

/-- A node that covers another span. -/
def withSpan (span : Span) (n : Node) : Node :=
  n.withMark { n.mark with span := span }

/-- The kind of a node, by name. -/
def tag : Node → String
  | generic _ tag _ => tag
  | identifier .. => "Identifier"
  | literal .. => "Literal"
  | call .. => "CallExpression"
  | member .. => "MemberExpression"
  | templateName .. => "VIdentifier"
  | directiveKey .. => "VDirectiveKey"
  | templateLiteral .. => "VLiteral"
  | container .. => "VExpressionContainer"
  | tagAttribute .. => "VAttribute"
  | startTag .. => "VStartTag"
  | endTag .. => "VEndTag"
  | templateText .. => "VText"
  | element .. => "VElement"
  | program .. => "Program"

/-- Whether a node is of no special kind. -/
def isGeneric : Node → Bool
  | generic .. => true
  | _ => false

/-- The fields that hold nodes, in the order of declaration, with the nodes they hold. -/
def fields : Node → List (String × List Node)
  | generic _ _ children => [("children", children)]
  | identifier .. | literal .. | templateName .. | templateLiteral .. | endTag ..
  | templateText .. => []
  | call _ callee arguments _ => [("callee", [callee]), ("arguments", arguments)]
  | member _ object property _ _ => [("object", [object]), ("property", [property])]
  | directiveKey _ name argument modifiers =>
    [("name", [name]), ("argument", argument.toList), ("modifiers", modifiers)]
  | container _ expression => [("expression", expression.toList)]
  | tagAttribute _ _ key value => [("key", [key]), ("value", value.toList)]
  | startTag _ attributes _ => [("attributes", attributes)]
  | element _ _ _ tag children closing =>
    [("start_tag", [tag]), ("children", children), ("end_tag", closing.toList)]
  | program _ body templateBody => [("body", body), ("template_body", templateBody.toList)]

/-- The nodes that a field holds; a field that holds no nodes, or does not exist, holds none. -/
def field (n : Node) (key : String) : List Node :=
  (n.fields.lookup key).getD []

/-- The node that an optional node holds is smaller than it. -/
theorem sizeOf_lt_of_mem_toList {m : Node} {x : Option Node} (h : m ∈ x.toList) :
    sizeOf m < sizeOf x := by
  cases x with
  | none => simp at h
  | some y => simp at h; subst h; simp

/-- A parent that was given by hand is smaller than the node it was given to. -/
theorem sizeOf_lt_of_givenParent? {n m : Node} (h : n.givenParent? = some m) :
    sizeOf m < sizeOf n := by
  have hmark : sizeOf n.mark < sizeOf n := by cases n <;> simp [mark] <;> omega
  unfold givenParent? at h
  rcases hn : n.mark with ⟨span, parent⟩
  simp only [hn] at h hmark
  cases parent with
  | absent | holder => simp at h
  | given k =>
    simp only [Option.some.injEq] at h
    subst h
    simp at hmark
    omega

/-- A node held by a field of another is smaller than it. -/
theorem sizeOf_lt_of_mem_fields {n m : Node} {key : String} {held : List Node}
    (hf : (key, held) ∈ n.fields) (hm : m ∈ held) : sizeOf m < sizeOf n := by
  cases n with
  | identifier | literal | templateName | templateLiteral | endTag | templateText =>
    simp [fields] at hf
  | generic | startTag =>
    simp [fields] at hf
    obtain ⟨rfl, rfl⟩ := hf
    have := List.sizeOf_lt_of_mem hm
    simp
    omega
  | call =>
    simp [fields] at hf
    rcases hf with ⟨rfl, rfl⟩ | ⟨rfl, rfl⟩
    · simp at hm; subst hm; simp; omega
    · have := List.sizeOf_lt_of_mem hm; simp; omega
  | member =>
    simp [fields] at hf
    rcases hf with ⟨rfl, rfl⟩ | ⟨rfl, rfl⟩ <;> simp at hm <;> subst hm <;> simp <;> omega
  | directiveKey =>
    simp [fields] at hf
    rcases hf with ⟨rfl, rfl⟩ | ⟨rfl, rfl⟩ | ⟨rfl, rfl⟩
    · simp at hm; subst hm; simp; omega
    · have := sizeOf_lt_of_mem_toList hm; simp; omega
    · have := List.sizeOf_lt_of_mem hm; simp; omega
  | container =>
    simp [fields] at hf
    obtain ⟨rfl, rfl⟩ := hf
    have := sizeOf_lt_of_mem_toList hm
    simp
    omega
  | tagAttribute =>
    simp [fields] at hf
    rcases hf with ⟨rfl, rfl⟩ | ⟨rfl, rfl⟩
    · simp at hm; subst hm; simp; omega
    · have := sizeOf_lt_of_mem_toList hm; simp; omega
  | element =>
    simp [fields] at hf
    rcases hf with ⟨rfl, rfl⟩ | ⟨rfl, rfl⟩ | ⟨rfl, rfl⟩
    · simp at hm; subst hm; simp; omega
    · have := List.sizeOf_lt_of_mem hm; simp; omega
    · have := sizeOf_lt_of_mem_toList hm; simp; omega
  | program =>
    simp [fields] at hf
    rcases hf with ⟨rfl, rfl⟩ | ⟨rfl, rfl⟩
    · have := List.sizeOf_lt_of_mem hm; simp; omega
    · have := sizeOf_lt_of_mem_toList hm; simp; omega

/-- Looking a field up finds one of the fields. -/
theorem mem_fields_of_mem_field {n m : Node} {key : String} (h : m ∈ n.field key) :
    ∃ held, (key, held) ∈ n.fields ∧ m ∈ held := by
  unfold field at h
  generalize n.fields = fs at h
  induction fs with
  | nil => simp at h
  | cons f fs ih =>
    obtain ⟨k, held⟩ := f
    by_cases hk : key == k
    · simp [List.lookup_cons, hk] at h
      refine ⟨held, ?_, h⟩
      simp [eq_of_beq hk]
    · simp [List.lookup_cons, hk] at h
      obtain ⟨held', hmem, hin⟩ := ih h
      exact ⟨held', by simp [hmem], hin⟩

/-- A node held by a named field of another is smaller than it. -/
theorem sizeOf_lt_of_mem_field {n m : Node} {key : String} (h : m ∈ n.field key) :
    sizeOf m < sizeOf n := by
  obtain ⟨held, hf, hm⟩ := mem_fields_of_mem_field h
  exact sizeOf_lt_of_mem_fields hf hm

end Node

end TranslationKeys
