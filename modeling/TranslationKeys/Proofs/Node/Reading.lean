import TranslationKeys.Node.Payload
import TranslationKeys.Proofs.Causes
import TranslationKeys.Proofs.Node.Shape
import TranslationKeys.Proofs.Value.Text

/-!
# Reading a tree from a plain value

What node a mapping stands for is said here by rules, one for each kind, over what its fields stand
for. Reading fails only where an integer has no text; a mapping with short integers stands for a
node whatever else it holds.
-/

namespace TranslationKeys

/-- A step that succeeds, with a result of which something holds. -/
def Yields {α : Type} (holds : α → Prop) (x : Except Failure α) : Prop :=
  ∃ a, x = .ok a ∧ holds a

namespace Yields

variable {α β : Type} {holds : α → Prop} {x : Except Failure α}

/-- What a step yields holds of its result. -/
theorem of_eq_ok (h : Yields holds x) {a : α} (hx : x = .ok a) : holds a := by
  obtain ⟨b, hb, hholds⟩ := h
  rwa [Except.ok.inj (hx.symm.trans hb)]

/-- Two steps one after the other yield what the second yields from a result of the first. -/
theorem bind {f : α → Except Failure β} {holds' : β → Prop} (h : Yields holds x)
    (hf : ∀ a, holds a → Yields holds' (f a)) : Yields holds' (x >>= f) := by
  obtain ⟨a, rfl, ha⟩ := h
  exact hf a ha

/-- A given result is yielded. -/
theorem pure {a : α} (h : holds a) : Yields holds (Pure.pure a) :=
  ⟨a, rfl, h⟩

/-- Less can be said of what is yielded. -/
theorem imp {holds' : α → Prop} (h : Yields holds x) (himp : ∀ a, holds a → holds' a) :
    Yields holds' x := by
  obtain ⟨a, hx, ha⟩ := h
  exact ⟨a, hx, himp a ha⟩

/-- A step for each item of a list yields for each result what the single steps yield. -/
theorem mapM {f : β → Except Failure α} {xs : List β} (h : ∀ y ∈ xs, Yields holds (f y)) :
    Yields (∀ a ∈ ·, holds a) (xs.mapM f) := by
  induction xs with
  | nil => exact pure (by simp)
  | cons y ys ih =>
    rw [List.mapM_cons]
    refine (h y List.mem_cons_self).bind fun a ha => ?_
    refine (ih fun z hz => h z (List.mem_cons_of_mem _ hz)).bind fun as has => ?_
    exact pure (List.forall_mem_cons.2 ⟨ha, has⟩)

end Yields

namespace Payload

/-- The kinds of mappings that have a rule of their own. -/
def knownKinds : List String :=
  ["Program", "Identifier", "Literal", "CallExpression", "MemberExpression", "VIdentifier",
    "VDirectiveKey", "VLiteral", "VExpressionContainer", "VAttribute", "VStartTag", "VEndTag",
    "VText", "VElement"]

/-- The node that a mapping stands for, by the kind it states. -/
inductive Builds (fields : Payload) : Node → Prop where
  | program {template : Option Node} {body : List Node} (hkind : fields.kind = .ok "Program")
      (htemplate : fields.nodeAt "templateBody" = .ok template)
      (hbody : fields.nodesAt "body" = .ok body) :
      Builds fields (.program { span := fields.span } body
        (template.filter (Node.isOfKind "VElement")))
  | identifier {name : String} (hkind : fields.kind = .ok "Identifier")
      (hname : fields.text "name" = .ok name) :
      Builds fields (.identifier { span := fields.span } name)
  | literal {value : Scalar} (hkind : fields.kind = .ok "Literal")
      (hvalue : scalarOf (fields.value "value") = .ok value) :
      Builds fields (.literal { span := fields.span } value (fields.stringOr "raw" ""))
  | call {callee : Node} {arguments : List Node} (hkind : fields.kind = .ok "CallExpression")
      (hcallee : fields.expectedNode "callee" = .ok callee)
      (harguments : fields.nodesAt "arguments" = .ok arguments) :
      Builds fields (.call { span := fields.span } callee arguments (fields.flag "optional"))
  | member {object property : Node} (hkind : fields.kind = .ok "MemberExpression")
      (hobject : fields.expectedNode "object" = .ok object)
      (hproperty : fields.expectedNode "property" = .ok property) :
      Builds fields (.member { span := fields.span } object property (fields.flag "computed")
        (fields.flag "optional"))
  | templateName {name : String} (hkind : fields.kind = .ok "VIdentifier")
      (hname : fields.text "name" = .ok name) :
      Builds fields (.templateName { span := fields.span } name (fields.stringOr "rawName" name))
  | directiveKey {name : Node} {argument : Option Node} {modifiers : List Node}
      (hkind : fields.kind = .ok "VDirectiveKey") (hname : fields.keyName = .ok name)
      (hargument : fields.keyArgument = .ok argument)
      (hmodifiers : fields.nodesAt "modifiers" = .ok modifiers) :
      Builds fields (.directiveKey { span := fields.span } name argument
        (modifiers.filter isTemplateName))
  | templateLiteral {value : String} (hkind : fields.kind = .ok "VLiteral")
      (hvalue : fields.text "value" = .ok value) :
      Builds fields (.templateLiteral { span := fields.span } value)
  | container {expression : Option Node} (hkind : fields.kind = .ok "VExpressionContainer")
      (hexpression : fields.nodeAt "expression" = .ok expression) :
      Builds fields (.container { span := fields.span } expression)
  | tagAttribute {key value : Option Node} (hkind : fields.kind = .ok "VAttribute")
      (hkey : fields.nodeAt "key" = .ok key) (hvalue : fields.nodeAt "value" = .ok value) :
      Builds fields (.tagAttribute { span := fields.span } (fields.flag "directive")
        (attributeKey (fields.flag "directive") key) (attributeValue value))
  | startTag {attributes : List Node} (hkind : fields.kind = .ok "VStartTag")
      (hattributes : fields.nodesAt "attributes" = .ok attributes) :
      Builds fields (.startTag { span := fields.span } (attributes.filter isAttribute)
        (fields.flag "selfClosing"))
  | endTag (hkind : fields.kind = .ok "VEndTag") : Builds fields (.endTag { span := fields.span })
  | templateText {value : String} (hkind : fields.kind = .ok "VText")
      (hvalue : fields.text "value" = .ok value) :
      Builds fields (.templateText { span := fields.span } value)
  | element {name : String} {tag closing : Option Node} {children : List Node}
      (hkind : fields.kind = .ok "VElement") (hname : fields.text "name" = .ok name)
      (htag : fields.nodeAt "startTag" = .ok tag) (hclosing : fields.nodeAt "endTag" = .ok closing)
      (hchildren : fields.nodesAt "children" = .ok children) :
      Builds fields (.element { span := fields.span } name (fields.stringOr "rawName" name)
        ((tag.filter (Node.isOfKind "VStartTag")).getD (.startTag {} [] false)) children
        (closing.filter (Node.isOfKind "VEndTag")))
  | generic {kind : String} {children : List Node} (hkind : fields.kind = .ok kind)
      (hunknown : kind ∉ knownKinds) (hchildren : fields.typedNodes = .ok children) :
      Builds fields (.generic { span := fields.span } kind children)

/-- Keeping an element is keeping a node of that kind. -/
theorem filter_isOfKind_element (n : Option Node) :
    (match n with
      | some (.element m name rawName tag children closing) =>
        some (.element m name rawName tag children closing)
      | _ => none) = n.filter (Node.isOfKind "VElement") := by
  cases n with
  | none => rfl
  | some n => cases n <;> simp [Option.filter, Node.isOfKind, Node.isGeneric, Node.tag]

/-- Keeping an opening tag is keeping a node of that kind. -/
theorem filter_isOfKind_startTag (n : Option Node) :
    (match n with
      | some (.startTag m attributes selfClosing) => .startTag m attributes selfClosing
      | _ => .startTag {} [] false) =
      (n.filter (Node.isOfKind "VStartTag")).getD (.startTag {} [] false) := by
  cases n with
  | none => rfl
  | some n => cases n <;> simp [Option.filter, Node.isOfKind, Node.isGeneric, Node.tag]

/-- Keeping a closing tag is keeping a node of that kind. -/
theorem filter_isOfKind_endTag (n : Option Node) :
    (match n with
      | some (.endTag m) => some (.endTag m)
      | _ => none) = n.filter (Node.isOfKind "VEndTag") := by
  cases n with
  | none => rfl
  | some n => cases n <;> simp [Option.filter, Node.isOfKind, Node.isGeneric, Node.tag]

/-- A mapping that can be read stands for what the rule of its kind says. -/
theorem builds_of_build {fields : Payload} {n : Node} (h : fields.build = .ok n) :
    fields.Builds n := by
  obtain ⟨kind, hkind, h⟩ := bind_eq_ok_iff.1 h
  obtain ⟨found, hfound, h⟩ := bind_eq_ok_iff.1 h
  unfold knownNode at hfound
  -- The kinds come in the order of the rules; each step of a builder is a premise of its rule.
  split at hfound
  · obtain ⟨template, htemplate, hfound⟩ := bind_eq_ok_iff.1 hfound
    obtain ⟨body, hbody, hfound⟩ := bind_eq_ok_iff.1 hfound
    cases hfound
    cases h
    have hbuilds := Builds.program hkind htemplate hbody
    rw [← filter_isOfKind_element] at hbuilds
    exact hbuilds
  · obtain ⟨name, hname, hfound⟩ := bind_eq_ok_iff.1 hfound
    cases hfound
    cases h
    exact .identifier hkind hname
  · obtain ⟨value, hvalue, hfound⟩ := bind_eq_ok_iff.1 hfound
    cases hfound
    cases h
    exact .literal hkind hvalue
  · obtain ⟨callee, hcallee, hfound⟩ := bind_eq_ok_iff.1 hfound
    obtain ⟨arguments, harguments, hfound⟩ := bind_eq_ok_iff.1 hfound
    cases hfound
    cases h
    exact .call hkind hcallee harguments
  · obtain ⟨object, hobject, hfound⟩ := bind_eq_ok_iff.1 hfound
    obtain ⟨property, hproperty, hfound⟩ := bind_eq_ok_iff.1 hfound
    cases hfound
    cases h
    exact .member hkind hobject hproperty
  · obtain ⟨name, hname, hfound⟩ := bind_eq_ok_iff.1 hfound
    cases hfound
    cases h
    exact .templateName hkind hname
  · obtain ⟨modifiers, hmodifiers, hfound⟩ := bind_eq_ok_iff.1 hfound
    obtain ⟨argument, hargument, hfound⟩ := bind_eq_ok_iff.1 hfound
    obtain ⟨name, hname, hfound⟩ := bind_eq_ok_iff.1 hfound
    cases hfound
    cases h
    exact .directiveKey hkind hname hargument hmodifiers
  · obtain ⟨value, hvalue, hfound⟩ := bind_eq_ok_iff.1 hfound
    cases hfound
    cases h
    exact .templateLiteral hkind hvalue
  · obtain ⟨expression, hexpression, hfound⟩ := bind_eq_ok_iff.1 hfound
    cases hfound
    cases h
    exact .container hkind hexpression
  · obtain ⟨key, hkey, hfound⟩ := bind_eq_ok_iff.1 hfound
    obtain ⟨value, hvalue, hfound⟩ := bind_eq_ok_iff.1 hfound
    cases hfound
    cases h
    exact .tagAttribute hkind hkey hvalue
  · obtain ⟨attributes, hattributes, hfound⟩ := bind_eq_ok_iff.1 hfound
    cases hfound
    cases h
    exact .startTag hkind hattributes
  · cases hfound
    cases h
    exact .endTag hkind
  · obtain ⟨value, hvalue, hfound⟩ := bind_eq_ok_iff.1 hfound
    cases hfound
    cases h
    exact .templateText hkind hvalue
  · obtain ⟨name, hname, hfound⟩ := bind_eq_ok_iff.1 hfound
    obtain ⟨tag, htag, hfound⟩ := bind_eq_ok_iff.1 hfound
    obtain ⟨closing, hclosing, hfound⟩ := bind_eq_ok_iff.1 hfound
    obtain ⟨children, hchildren, hfound⟩ := bind_eq_ok_iff.1 hfound
    cases hfound
    cases h
    have hbuilds := Builds.element hkind hname htag hclosing hchildren
    rw [← filter_isOfKind_startTag, ← filter_isOfKind_endTag] at hbuilds
    exact hbuilds
  · cases hfound
    obtain ⟨children, hchildren, h⟩ := bind_eq_ok_iff.1 h
    cases h
    exact .generic hkind (by simp_all [knownKinds]) hchildren

/-- What the rule of its kind says a mapping stands for is read from it. -/
theorem build_of_builds {fields : Payload} {n : Node} (h : fields.Builds n) :
    fields.build = .ok n := by
  have hknown {kind : String} {n : Node} (hkind : fields.kind = .ok kind)
      (hn : fields.knownNode kind = .ok (some n)) :
      fields.build = .ok (n.withSpan fields.span) := by
    rw [build, hkind]
    change (fields.knownNode kind >>= _) = _
    rw [hn]
    rfl
  cases h with
  | program hkind htemplate hbody =>
    rw [← filter_isOfKind_element]
    exact hknown hkind (n := .program {} _ _) (by simp only [knownNode, htemplate, hbody]; rfl)
  | identifier hkind hname =>
    exact hknown hkind (n := .identifier {} _) (by simp only [knownNode, hname]; rfl)
  | literal hkind hvalue =>
    exact hknown hkind (n := .literal {} _ _) (by simp only [knownNode, hvalue]; rfl)
  | call hkind hcallee harguments =>
    exact hknown hkind (n := .call {} _ _ _) (by simp only [knownNode, hcallee, harguments]; rfl)
  | member hkind hobject hproperty =>
    exact hknown hkind (n := .member {} _ _ _ _)
      (by simp only [knownNode, hobject, hproperty]; rfl)
  | templateName hkind hname =>
    exact hknown hkind (n := .templateName {} _ _) (by simp only [knownNode, hname]; rfl)
  | directiveKey hkind hname hargument hmodifiers =>
    exact hknown hkind (n := .directiveKey {} _ _ _)
      (by simp only [knownNode, hname, hargument, hmodifiers]; rfl)
  | templateLiteral hkind hvalue =>
    exact hknown hkind (n := .templateLiteral {} _) (by simp only [knownNode, hvalue]; rfl)
  | container hkind hexpression =>
    exact hknown hkind (n := .container {} _) (by simp only [knownNode, hexpression]; rfl)
  | tagAttribute hkind hkey hvalue =>
    exact hknown hkind (n := .tagAttribute {} _ _ _) (by simp only [knownNode, hkey, hvalue]; rfl)
  | startTag hkind hattributes =>
    exact hknown hkind (n := .startTag {} _ _) (by simp only [knownNode, hattributes]; rfl)
  | endTag hkind => exact hknown hkind (n := .endTag {}) rfl
  | templateText hkind hvalue =>
    exact hknown hkind (n := .templateText {} _) (by simp only [knownNode, hvalue]; rfl)
  | element hkind hname htag hclosing hchildren =>
    rw [← filter_isOfKind_startTag, ← filter_isOfKind_endTag]
    exact hknown hkind (n := .element {} _ _ _ _ _)
      (by simp only [knownNode, hname, htag, hclosing, hchildren]; rfl)
  | @generic kind _ hkind hunknown hchildren =>
    have hnone : fields.knownNode kind = .ok none := by
      unfold knownNode
      split <;> simp_all [knownKinds]
    rw [build, hkind]
    change (fields.knownNode kind >>= _) = _
    rw [hnone]
    change (fields.typedNodes >>= _) = _
    rw [hchildren]
    rfl

end Payload

/-- A reading whose integers are short and whose nodes can be read, with something that holds of
them. -/
structure Reading.Reads (P : Node → Prop) (r : Reading) : Prop where
  /-- The integers of the value are short. -/
  short : r.value.hasShortIntegers = true
  /-- The node of a typed mapping can be read. -/
  node : ∀ x ∈ r.node, Yields P x
  /-- The nodes in a sequence can be read. -/
  nodes : Yields (∀ n ∈ ·, P n) r.nodes

/-- Less can be said of the nodes of a reading. -/
theorem Reading.Reads.imp {P Q : Node → Prop} {r : Reading} (h : r.Reads P)
    (himp : ∀ n, P n → Q n) : r.Reads Q :=
  ⟨h.short, fun x hx => (h.node x hx).imp himp,
    h.nodes.imp fun _ hns n hn => himp n (hns n hn)⟩

/-- A value that stands for no nodes can be read. -/
theorem Reading.reads_leaf {P : Node → Prop} {v : Value} (h : v.hasShortIntegers = true) :
    (Reading.leaf v).Reads P :=
  ⟨h, fun _ hx => (nomatch hx), .pure (by simp)⟩

namespace Payload

variable {P : Node → Prop} {fields : Payload}

/-- All fields of a mapping can be read. -/
def Reads (P : Node → Prop) (fields : Payload) : Prop :=
  ∀ entry ∈ fields, entry.2.Reads P

/-- The reading of a field is among those of all fields. -/
theorem Reads.get? (h : fields.Reads P) {key : String} {r : Reading}
    (hr : fields.get? key = some r) : r.Reads P := by
  obtain ⟨entry, hentry, rfl⟩ := Option.map_eq_some_iff.1 hr
  exact h entry (List.mem_of_find?_eq_some hentry)

/-- The integers in the value of a field are short. -/
theorem Reads.short (h : fields.Reads P) (key : String) :
    (fields.value key).hasShortIntegers = true := by
  unfold value
  cases hget : fields.get? key with
  | none => rfl
  | some r => exact (h.get? hget).short

/-- A field has a text. -/
theorem Reads.text (h : fields.Reads P) (key : String) :
    Yields (fun _ => True) (fields.text key) := by
  unfold Payload.text
  cases hget : fields.get? key with
  | none => exact .pure trivial
  | some r =>
    obtain ⟨s, hs⟩ := Value.exists_text (h.get? hget).short
    exact ⟨s, hs, trivial⟩

/-- The node in a field can be read. -/
theorem Reads.nodeAt (h : fields.Reads P) (key : String) :
    Yields (∀ n ∈ ·, P n) (fields.nodeAt key) := by
  unfold Payload.nodeAt
  cases hnode : (fields.get? key).bind Reading.node with
  | none => exact .pure (by simp)
  | some x =>
    obtain ⟨r, hr, hx⟩ := Option.bind_eq_some_iff.1 hnode
    exact ((h.get? hr).node x hx).bind fun n hn => .pure (by simpa using hn)

/-- The node in a field, or its placeholder, can be read. -/
theorem Reads.expectedNode (h : fields.Reads P) (hplaceholder : P (.generic {} "Unknown" []))
    (key : String) : Yields P (fields.expectedNode key) := by
  refine (h.nodeAt key).bind fun n hn => .pure ?_
  cases n with
  | none => exact hplaceholder
  | some n => exact hn n rfl

/-- The nodes in a field can be read. -/
theorem Reads.nodesAt (h : fields.Reads P) (key : String) :
    Yields (∀ n ∈ ·, P n) (fields.nodesAt key) := by
  unfold Payload.nodesAt
  cases hget : fields.get? key with
  | none => exact .pure (by simp)
  | some r => exact (h.get? hget).nodes

/-- The nodes in the fields of an unknown kind can be read. -/
theorem Reads.typedNodes (h : fields.Reads P) : Yields (∀ n ∈ ·, P n) fields.typedNodes := by
  have hflatten (found : List (List Node)) (hholds : ∀ ns ∈ found, ∀ n ∈ ns, P n) :
      ∀ n ∈ found.flatten, P n := by
    intro n hn
    obtain ⟨ns, hns, hn⟩ := List.mem_flatten.1 hn
    exact hholds ns hns n hn
  unfold Payload.typedNodes
  refine Yields.bind (.mapM fun entry hentry => ?_) fun found hholds =>
    .pure (hflatten found hholds)
  have hread := h entry (List.mem_filter.1 hentry).1
  cases hnode : entry.2.node with
  | none => exact hread.nodes
  | some x => exact (hread.node x hnode).bind fun n hn => .pure (by simpa using hn)

/-- The kind of a mapping can be read. -/
theorem Reads.kind (h : fields.Reads P) : Yields (fun _ => True) fields.kind := by
  unfold Payload.kind
  cases hget : fields.get? "type" with
  | none => exact .pure trivial
  | some r =>
    obtain ⟨s, hs⟩ := Value.exists_text (h.get? hget).short
    exact ⟨s, hs, trivial⟩

/-- The value of a literal can be read, and is a token. -/
theorem scalarOf_yields {v : Value} (h : v.hasShortIntegers = true) :
    Yields Scalar.IsToken (scalarOf v) := by
  obtain ⟨s, hs⟩ := Value.exists_text h
  have hother : Yields Scalar.IsToken (do return Scalar.ofString (← v.text)) := by
    rw [hs]
    exact .pure trivial
  cases v with
  | null | bool | float | str => exact .pure trivial
  | int i =>
    rw [Value.hasShortIntegers, Integer.isShort_iff] at h
    exact ⟨.int i, rfl, h⟩
  | _ => exact hother

/-- The name of a directive can be read, and is a name of a template. -/
theorem Reads.keyName (h : fields.Reads P)
    (hname : ∀ mark name rawName, P (.templateName mark name rawName)) :
    Yields (fun n => P n ∧ n.isOfKind "VIdentifier" = true) fields.keyName := by
  refine (h.nodeAt "name").bind fun n hn => ?_
  have hbare : Yields (fun n => P n ∧ n.isOfKind "VIdentifier" = true) (do
      let name ← textIfTrue (fields.value "name")
      return .templateName {} name name) := by
    have htext : Yields (fun _ => True) (textIfTrue (fields.value "name")) := by
      unfold textIfTrue
      split
      · obtain ⟨s, hs⟩ := Value.exists_text (h.short "name")
        exact ⟨s, hs, trivial⟩
      · exact .pure trivial
    exact htext.bind fun name _ => .pure ⟨hname _ _ _, rfl⟩
  split
  · exact .pure ⟨hname _ _ _, rfl⟩
  · exact .pure ⟨hname _ _ _, rfl⟩
  · exact hbare

/-- The argument of a directive can be read. -/
theorem Reads.keyArgument (h : fields.Reads P)
    (hname : ∀ mark name rawName, P (.templateName mark name rawName)) :
    Yields (∀ n ∈ ·, P n) fields.keyArgument := by
  unfold Payload.keyArgument
  split
  · exact .pure (by simpa using hname _ _ _)
  · exact h.nodeAt "argument"

/-- A mapping whose fields can be read can be read. -/
theorem Reads.build (hfields : fields.Reads P) : Yields fields.Builds fields.build := by
  -- That the steps succeed does not depend on what holds of the nodes; which node comes out is then
  -- known from the rules.
  have h : fields.Reads fun _ => True :=
    fun entry hentry => (hfields entry hentry).imp fun _ _ => trivial
  have hknown (kind : String) : Yields (fun _ => True) (fields.knownNode kind) := by
    have hplaceholder := h.expectedNode trivial
    unfold knownNode
    split
    · exact (h.nodeAt _).bind fun _ _ => (h.nodesAt _).bind fun _ _ => .pure trivial
    · exact (h.text _).bind fun _ _ => .pure trivial
    · exact (scalarOf_yields (h.short _)).bind fun _ _ => .pure trivial
    · exact (hplaceholder _).bind fun _ _ => (h.nodesAt _).bind fun _ _ => .pure trivial
    · exact (hplaceholder _).bind fun _ _ => (hplaceholder _).bind fun _ _ => .pure trivial
    · exact (h.text _).bind fun _ _ => .pure trivial
    · exact (h.nodesAt _).bind fun _ _ => (h.keyArgument fun _ _ _ => trivial).bind fun _ _ =>
        (h.keyName fun _ _ _ => trivial).bind fun _ _ => .pure trivial
    · exact (h.text _).bind fun _ _ => .pure trivial
    · exact (h.nodeAt _).bind fun _ _ => .pure trivial
    · exact (h.nodeAt _).bind fun _ _ => (h.nodeAt _).bind fun _ _ => .pure trivial
    · exact (h.nodesAt _).bind fun _ _ => .pure trivial
    · exact .pure trivial
    · exact (h.text _).bind fun _ _ => .pure trivial
    · exact (h.text _).bind fun _ _ => (h.nodeAt _).bind fun _ _ => (h.nodeAt _).bind fun _ _ =>
        (h.nodesAt _).bind fun _ _ => .pure trivial
    · exact .pure trivial
  have hbuild : Yields (fun _ => True) fields.build := by
    refine h.kind.bind fun kind _ => (hknown kind).bind fun found _ => ?_
    cases found with
    | some n => exact .pure trivial
    | none => exact h.typedNodes.bind fun _ _ => .pure trivial
  obtain ⟨n, hn, -⟩ := hbuild
  exact ⟨n, hn, builds_of_build hn⟩

end Payload

/-- What the rules keep: it holds of a node if it holds of the nodes in the fields that the node is
made from. -/
def KeptByRules (P : Node → Prop) : Prop :=
  ∀ {fields : Payload} {n : Node}, fields.Reads P → fields.Builds n → P n

mutual

/-- A value with short integers can be read, and what the rules keep holds of its nodes. -/
theorem Reading.reads_ofValue {P : Node → Prop} (hkept : KeptByRules P) :
    ∀ {v : Value}, v.hasShortIntegers = true → (Reading.ofValue v).Reads P
  | .map entries, h => by
    have hfields : (Payload.ofEntries entries).Reads P :=
      Payload.reads_ofEntries hkept (by rwa [Value.hasShortIntegers] at h)
    rw [Reading.ofValue]
    refine ⟨h, fun x hx => ?_, .pure (by simp)⟩
    simp only at hx
    split at hx
    · obtain rfl := Option.some.inj hx
      exact hfields.build.imp fun n hn => hkept hfields hn
    · exact nomatch hx
  | .list items, h | .tuple items, h => by
    have hitems : ∀ r ∈ Reading.ofItems items, r.Reads P :=
      Reading.reads_ofItems hkept (by rwa [Value.hasShortIntegers] at h)
    rw [Reading.ofValue]
    refine ⟨h, fun x hx => (nomatch hx), .mapM fun x hx => ?_⟩
    obtain ⟨r, hr, hx⟩ := List.mem_filterMap.1 hx
    exact (hitems r hr).node x hx
  | .null, h | .bool _, h | .int _, h | .float _, h | .str _, h | .moment _, h | .set _, h
  | .frozenSet _, h | .bytes _ _, h | .object _, h =>
    Reading.reads_leaf h

/-- Items with short integers can be read. -/
theorem Reading.reads_ofItems {P : Node → Prop} (hkept : KeptByRules P) :
    ∀ {vs : List Value}, Value.haveShortIntegers vs = true →
      ∀ r ∈ Reading.ofItems vs, r.Reads P
  | [], _ => by simp [Reading.ofItems]
  | v :: vs, h => by
    rw [Value.haveShortIntegers, Bool.and_eq_true] at h
    rw [Reading.ofItems]
    exact List.forall_mem_cons.2 ⟨Reading.reads_ofValue hkept h.1, Reading.reads_ofItems hkept h.2⟩

/-- Entries with short integers can be read. -/
theorem Payload.reads_ofEntries {P : Node → Prop} (hkept : KeptByRules P) :
    ∀ {entries : List (Value × Value)}, Value.entriesHaveShortIntegers entries = true →
      (Payload.ofEntries entries).Reads P
  | [], _ => by simp [Payload.ofEntries, Payload.Reads]
  | (k, v) :: entries, h => by
    rw [Value.entriesHaveShortIntegers, Bool.and_eq_true, Bool.and_eq_true] at h
    rw [Payload.ofEntries]
    exact List.forall_mem_cons.2
      ⟨Reading.reads_ofValue hkept h.1.2, Payload.reads_ofEntries hkept h.2⟩

end

/-- A mapping with short integers stands for a node, by the rule of its kind, and what the rules
keep holds of it. -/
theorem Node.ofEntries_yields {P : Node → Prop} (hkept : KeptByRules P)
    {entries : List (Value × Value)} (h : (Value.map entries).hasShortIntegers = true) :
    Yields (fun n => (Payload.ofEntries entries).Builds n ∧ P n) (Node.ofEntries entries) := by
  rw [Value.hasShortIntegers] at h
  have hfields := Payload.reads_ofEntries hkept h
  exact hfields.build.imp fun n hn => ⟨hn, hkept hfields hn⟩

end TranslationKeys
