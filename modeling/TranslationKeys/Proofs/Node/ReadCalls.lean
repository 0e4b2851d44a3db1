import TranslationKeys.Proofs.Memo.Freezing
import TranslationKeys.Proofs.Node.WellTyped
import Mathlib.Logic.Relation

/-!
# Reading loses no translator call

A tree is given as a mapping that holds other mappings. Which of them a walk through the tree that
is read comes to is said here on the mappings alone, step by step from the root. Every call of a
translator that is reached in this way contributes its key.

One step down the mappings is one step down the nodes that are read from them, so a run of steps
leads to a node in the pre-order of the tree. Linking the tree keeps the key of a call.
-/

namespace TranslationKeys

/-- A value that a script can write down as one token. -/
def Value.IsScalar : Value → Prop
  | .null | .bool _ | .int _ | .float _ | .str _ => True
  | _ => False

/-- The entries of a mapping. -/
abbrev Mapping := List (Value × Value)

namespace Mapping

/-- The kind a mapping states. -/
def kind (m : Mapping) : Except Failure String :=
  match Value.lookup? "type" m with
  | some v => v.text
  | none => .ok "Unknown"

/-- A mapping that states its kind as a string. -/
def IsTyped (m : Mapping) (kind : String) : Prop :=
  Value.lookup? "type" m = some (.str kind)

/-- A field holds a mapping that states its kind. -/
def HoldsAt (m : Mapping) (key : String) (child : Mapping) (kind : String) : Prop :=
  Value.lookup? key m = some (.map child) ∧ child.IsTyped kind

/-- A field holds a sequence with a mapping that states its kind. -/
def ListsAt (m : Mapping) (key : String) (child : Mapping) (kind : String) : Prop :=
  ∃ v items, Value.lookup? key m = some v ∧ v.sequenceItems? = some items ∧
    .map child ∈ items ∧ child.IsTyped kind

/-- One step from a mapping to one that it holds. -/
inductive Enters (m child : Mapping) : Prop where
  /-- From an unknown kind through any field that is not skipped. -/
  | unknownField {kind childKind : String} {key : Value} (hkind : m.kind = .ok kind)
      (hunknown : kind ∉ Payload.knownKinds) (hkey : key ∉ Payload.metadataFields.map Value.str)
      (hentry : (key, .map child) ∈ m) (hchild : child.IsTyped childKind)
  /-- From an unknown kind through a sequence in any field that is not skipped. -/
  | unknownItem {kind childKind : String} {key v : Value} {items : List Value}
      (hkind : m.kind = .ok kind) (hunknown : kind ∉ Payload.knownKinds)
      (hkey : key ∉ Payload.metadataFields.map Value.str) (hentry : (key, v) ∈ m)
      (hitems : v.sequenceItems? = some items) (hitem : .map child ∈ items)
      (hchild : child.IsTyped childKind)
  /-- From a program to a statement. -/
  | body {childKind : String} (hkind : m.kind = .ok "Program")
      (hchild : m.ListsAt "body" child childKind)
  /-- From a call to what is called. -/
  | callee {childKind : String} (hkind : m.kind = .ok "CallExpression")
      (hchild : m.HoldsAt "callee" child childKind)
  /-- From a call to an argument. -/
  | argument {childKind : String} (hkind : m.kind = .ok "CallExpression")
      (hchild : m.ListsAt "arguments" child childKind)
  /-- From an access to its object. -/
  | object {childKind : String} (hkind : m.kind = .ok "MemberExpression")
      (hchild : m.HoldsAt "object" child childKind)
  /-- From an access to its property. -/
  | property {childKind : String} (hkind : m.kind = .ok "MemberExpression")
      (hchild : m.HoldsAt "property" child childKind)
  /-- From a container to its expression. -/
  | expression {childKind : String} (hkind : m.kind = .ok "VExpressionContainer")
      (hchild : m.HoldsAt "expression" child childKind)
  /-- From an attribute to the container that is its value. -/
  | attributeValue (hkind : m.kind = .ok "VAttribute")
      (hchild : m.HoldsAt "value" child "VExpressionContainer")
  /-- From an attribute to its split key. -/
  | attributeKey (hkind : m.kind = .ok "VAttribute")
      (hchild : m.HoldsAt "key" child "VDirectiveKey")
  /-- From a split key to its argument. -/
  | keyArgument {childKind : String} (hkind : m.kind = .ok "VDirectiveKey")
      (hchild : m.HoldsAt "argument" child childKind)
  /-- From an opening tag to an attribute. -/
  | tagAttribute (hkind : m.kind = .ok "VStartTag")
      (hchild : m.ListsAt "attributes" child "VAttribute")
  /-- From an element to its opening tag. -/
  | startTag (hkind : m.kind = .ok "VElement")
      (hchild : m.HoldsAt "startTag" child "VStartTag")
  /-- From an element to what it contains. -/
  | content {childKind : String} (hkind : m.kind = .ok "VElement")
      (hchild : m.ListsAt "children" child childKind)

/-- A mapping that is reached from a root: through the root itself, or through the template of a
root that is a program. -/
inductive Reaches (root m : Mapping) : Prop where
  | script (hsteps : Relation.ReflTransGen Enters root m)
  | template {body : Mapping} (hkind : root.kind = .ok "Program")
      (hbody : root.HoldsAt "templateBody" body "VElement")
      (hsteps : Relation.ReflTransGen Enters body m)

/-- A name of a translator. -/
def IsTranslatorName (m : Mapping) : Prop :=
  m.IsTyped "Identifier" ∧ ∃ name ∈ translatorNames, Value.lookup? "name" m = some (.str name)

/-- What is called is a translator: a name of one, or an access to a property by such a name. -/
inductive IsTranslator (m : Mapping) : Prop where
  | name (hname : m.IsTranslatorName)
  | property {property : Mapping} (hkind : m.IsTyped "MemberExpression")
      (hproperty : Value.lookup? "property" m = some (.map property))
      (hname : property.IsTranslatorName)

/-- A call of a translator whose first argument is a literal with a truthy value. -/
structure IsTranslatorCall (m : Mapping) (value : Value) : Prop where
  /-- The mapping is a call. -/
  kind : m.IsTyped "CallExpression"
  /-- A translator is called. -/
  callee : ∃ callee : Mapping, Value.lookup? "callee" m = some (.map callee) ∧ callee.IsTranslator
  /-- The first argument is a literal with the value. -/
  argument : ∃ (v : Value) (literal : Mapping) (rest : List Value),
    Value.lookup? "arguments" m = some v ∧ v.sequenceItems? = some (.map literal :: rest) ∧
      literal.IsTyped "Literal" ∧ Value.lookup? "value" literal = some value
  /-- The value is a scalar. -/
  scalar : value.IsScalar
  /-- The value is truthy. -/
  truthy : (Scalar.ofValue value).isTruthy = true

/-- A mapping states the kind that it is typed by. -/
theorem IsTyped.kind_eq {m : Mapping} {kind : String} (h : m.IsTyped kind) : m.kind = .ok kind := by
  rw [Mapping.kind, h]
  rfl

end Mapping

/-! ### What the fields of a mapping stand for -/

/-- A reading keeps the value that was read. -/
theorem Reading.value_ofValue (v : Value) : (Reading.ofValue v).value = v := by
  cases v <;> simp [Reading.ofValue, Reading.leaf]

/-- Items are read one by one. -/
theorem Reading.ofItems_eq_map (vs : List Value) : Reading.ofItems vs = vs.map Reading.ofValue :=
  eq_map_of_cons (by rw [Reading.ofItems]) (fun _ _ => by rw [Reading.ofItems]) vs

/-- The nodes of a sequence are those of its items. -/
theorem Reading.nodes_ofValue {v : Value} {items : List Value} (h : v.sequenceItems? = some items) :
    (Reading.ofValue v).node = none ∧
      (Reading.ofValue v).nodes = Reading.collect (items.map Reading.ofValue) := by
  cases v with
  | list | tuple =>
    obtain rfl := Option.some.inj h
    rw [Reading.ofValue, ← Reading.ofItems_eq_map]
    exact ⟨rfl, rfl⟩
  | _ => cases h

namespace Payload

/-- Entries are read one by one. -/
theorem ofEntries_eq_map (m : Mapping) :
    ofEntries m = m.map fun entry => (entry.1, Reading.ofValue entry.2) :=
  eq_map_of_cons (by rw [ofEntries]) (fun _ _ => by rw [ofEntries]) m

/-- A field of what is read is read from the field. -/
theorem get?_ofEntries (m : Mapping) (key : String) :
    (ofEntries m).get? key = (Value.lookup? key m).map Reading.ofValue := by
  rw [get?, Value.lookup?, ofEntries_eq_map, List.find?_map, Option.map_map, Option.map_map]
  rfl

/-- The value of a field of what is read is that of the field. -/
theorem value_ofEntries {m : Mapping} {key : String} {v : Value}
    (h : Value.lookup? key m = some v) : (ofEntries m).value key = v := by
  rw [value, get?_ofEntries, h]
  exact Reading.value_ofValue v

/-- What is read keeps the kind. -/
theorem kind_ofEntries (m : Mapping) : (ofEntries m).kind = m.kind := by
  rw [kind, get?_ofEntries, Mapping.kind]
  cases Value.lookup? "type" m with
  | none => rfl
  | some v => exact congrArg Value.text (Reading.value_ofValue v)

/-- The text of a field that holds a string is the string. -/
theorem text_ofEntries {m : Mapping} {key s : String} (h : Value.lookup? key m = some (.str s)) :
    (ofEntries m).text key = .ok s := by
  rw [text, get?_ofEntries, h]
  exact congrArg Value.text (Reading.value_ofValue (.str s))

end Payload

namespace Mapping

variable {m child : Mapping} {key kind : String} {c : Node}

/-- A typed mapping is read as its node. -/
theorem IsTyped.node_ofValue (h : m.IsTyped kind) :
    (Reading.ofValue (.map m)).node = some (Node.ofEntries m) := by
  have htyped : (Payload.ofEntries m).isTyped = true := by
    rw [Payload.isTyped, Payload.value_ofEntries h]
  rw [Reading.ofValue, htyped]
  rfl

/-- A field that holds a typed mapping holds its node. -/
theorem HoldsAt.nodeAt_eq (h : m.HoldsAt key child kind) (hc : Node.ofEntries child = .ok c) :
    (Payload.ofEntries m).nodeAt key = .ok (some c) := by
  rw [Payload.nodeAt, Payload.get?_ofEntries, h.1, Option.map_some, Option.bind_some,
    h.2.node_ofValue, hc]
  rfl

/-- A field that holds a typed mapping holds its node, and no placeholder is taken. -/
theorem HoldsAt.expectedNode_eq (h : m.HoldsAt key child kind)
    (hc : Node.ofEntries child = .ok c) : (Payload.ofEntries m).expectedNode key = .ok c := by
  rw [Payload.expectedNode, h.nodeAt_eq hc]
  rfl

/-- The nodes of a sequence have those of its typed mappings among them. -/
theorem IsTyped.mem_collect (h : child.IsTyped kind) (hc : Node.ofEntries child = .ok c)
    {items : List Value} (hitem : .map child ∈ items) {ns : List Node}
    (hns : Reading.collect (items.map Reading.ofValue) = .ok ns) : c ∈ ns := by
  have hread : .ok c ∈ (items.map Reading.ofValue).filterMap Reading.node :=
    List.mem_filterMap.2 ⟨_, List.mem_map_of_mem hitem, by rw [h.node_ofValue, hc]⟩
  obtain ⟨n, hn, heq⟩ := exists_mem_right_of_forall₂ (mapM_eq_ok_iff.1 hns) hread
  rwa [Except.ok.inj heq]

/-- A field that lists a typed mapping lists its node. -/
theorem ListsAt.mem_nodesAt (h : m.ListsAt key child kind) (hc : Node.ofEntries child = .ok c)
    {ns : List Node} (hns : (Payload.ofEntries m).nodesAt key = .ok ns) : c ∈ ns := by
  obtain ⟨v, items, hfield, hitems, hitem, htyped⟩ := h
  rw [Payload.nodesAt, Payload.get?_ofEntries, hfield] at hns
  exact htyped.mem_collect hc hitem ((Reading.nodes_ofValue hitems).2.symm.trans hns)

end Mapping

namespace Payload

variable {fields : Payload} {n : Node}

/-- A mapping of a known kind stands for a node of that kind. -/
theorem Builds.isOfKind (h : fields.Builds n) {kind : String} (hkind : fields.kind = .ok kind)
    (hknown : kind ∈ knownKinds) : n.isOfKind kind = true := by
  cases h with
  | generic hkind' hunknown =>
    obtain rfl := Except.ok.inj (hkind.symm.trans hkind')
    exact absurd hknown hunknown
  | program hkind' | identifier hkind' | literal hkind' | call hkind' | member hkind'
  | templateName hkind' | directiveKey hkind' | templateLiteral hkind' | container hkind'
  | tagAttribute hkind' | startTag hkind' | endTag hkind' | templateText hkind'
  | element hkind' =>
    obtain rfl := Except.ok.inj (hkind.symm.trans hkind')
    rfl

/-- A mapping of an unknown kind stands for a node that holds all nodes in its fields. -/
theorem Builds.typedNodes_eq (h : fields.Builds n) {kind : String} (hkind : fields.kind = .ok kind)
    (hunknown : kind ∉ knownKinds) : fields.typedNodes = .ok n.held := by
  cases h with
  | generic _ _ hchildren => exact hchildren
  | program hkind' | identifier hkind' | literal hkind' | call hkind' | member hkind'
  | templateName hkind' | directiveKey hkind' | templateLiteral hkind' | container hkind'
  | tagAttribute hkind' | startTag hkind' | endTag hkind' | templateText hkind'
  | element hkind' =>
    obtain rfl := Except.ok.inj (hkind.symm.trans hkind')
    exact absurd (by decide) hunknown

/-- What is read from a field of an unknown kind that is not skipped is among its nodes. -/
theorem exists_subset_typedNodes {ns : List Node} (h : fields.typedNodes = .ok ns)
    {entry : Value × Reading} (hentry : entry ∈ fields) (hkey : isSkipped entry.1 = false) :
    ∃ part ⊆ ns, (match entry.2.node with
      | some node => do return [← node]
      | none => entry.2.nodes) = .ok part := by
  obtain ⟨found, hfound, h⟩ := bind_eq_ok_iff.1 h
  obtain rfl := Except.ok.inj h
  have hkept : entry ∈ fields.filter fun entry => !isSkipped entry.1 :=
    List.mem_filter.2 ⟨hentry, by rw [hkey]; rfl⟩
  obtain ⟨part, hpart, hread⟩ := exists_mem_right_of_forall₂ (mapM_eq_ok_iff.1 hfound) hkept
  exact ⟨part, fun k hk => List.mem_flatten.2 ⟨part, hpart, hk⟩, hread⟩

/-- A field that is not among those of metadata is not skipped. -/
theorem isSkipped_eq_false {key : Value} (h : key ∉ metadataFields.map Value.str) :
    isSkipped key = false := by
  cases key with
  | str s =>
    rw [isSkipped, Bool.eq_false_iff]
    exact fun hs => h (List.mem_map_of_mem (List.contains_iff_mem.1 hs))
  | _ => rfl

/-- A split key is kept as the key of an attribute. -/
theorem attributeKey_some (directive : Bool) (h : n.isOfKind "VDirectiveKey" = true) :
    attributeKey directive (some n) = n := by
  cases n with
  | directiveKey => simp [attributeKey, isTemplateName]
  | _ => cases h

/-- A container is kept as the value of an attribute. -/
theorem attributeValue_some (h : n.isOfKind "VExpressionContainer" = true) :
    attributeValue (some n) = some n := by
  cases n with
  | container => rfl
  | _ => cases h

/-- A node of the kind of attributes is one. -/
theorem isAttribute_of_isOfKind (h : n.isOfKind "VAttribute" = true) : isAttribute n = true := by
  cases n with
  | tagAttribute => rfl
  | _ => cases h

/-- The value of a literal that is a scalar is kept. -/
theorem scalarOf_eq_ofValue {v : Value} (h : v.IsScalar) :
    scalarOf v = .ok (Scalar.ofValue v) := by
  cases v with
  | null | bool | int | float | str => rfl
  | _ => cases h

end Payload

namespace Mapping

variable {m child : Mapping} {n c : Node}

/-- A mapping is read by one of the rules. -/
theorem builds_ofEntries (hn : Node.ofEntries m = .ok n) : (Payload.ofEntries m).Builds n :=
  Payload.builds_of_build hn

/-- A mapping of a known kind is read as a node of that kind. -/
theorem isOfKind_ofEntries {kind : String} (hn : Node.ofEntries m = .ok n)
    (hkind : m.kind = .ok kind) (hknown : kind ∈ Payload.knownKinds) : n.isOfKind kind = true :=
  (builds_ofEntries hn).isOfKind ((Payload.kind_ofEntries m).trans hkind) hknown

/-- One step down the mappings is one step down their nodes. -/
theorem Enters.mem_held (h : m.Enters child) (hn : Node.ofEntries m = .ok n)
    (hc : Node.ofEntries child = .ok c) : c ∈ n.held := by
  have hbuilds := builds_ofEntries hn
  have hunknownHeld {kind : String} (hkind : m.kind = .ok kind)
      (hunknown : kind ∉ Payload.knownKinds) :
      (Payload.ofEntries m).typedNodes = .ok n.held :=
    hbuilds.typedNodes_eq ((Payload.kind_ofEntries m).trans hkind) hunknown
  have hchildKind {kind : String} (htyped : child.IsTyped kind)
      (hmem : kind ∈ Payload.knownKinds) : c.isOfKind kind = true :=
    isOfKind_ofEntries hc htyped.kind_eq hmem
  have hentry {key v : Value} (hmem : (key, v) ∈ m) :
      (key, Reading.ofValue v) ∈ Payload.ofEntries m := by
    rw [Payload.ofEntries_eq_map]
    exact List.mem_map_of_mem hmem
  cases h with
  | unknownField hkind hunknown hkey hmem htyped =>
    obtain ⟨part, hsubset, hpart⟩ := Payload.exists_subset_typedNodes
      (hunknownHeld hkind hunknown) (hentry hmem) (Payload.isSkipped_eq_false hkey)
    rw [htyped.node_ofValue, hc] at hpart
    obtain rfl := Except.ok.inj hpart
    exact hsubset List.mem_cons_self
  | unknownItem hkind hunknown hkey hmem hitems hitem htyped =>
    obtain ⟨part, hsubset, hpart⟩ := Payload.exists_subset_typedNodes
      (hunknownHeld hkind hunknown) (hentry hmem) (Payload.isSkipped_eq_false hkey)
    rw [(Reading.nodes_ofValue hitems).1, (Reading.nodes_ofValue hitems).2] at hpart
    exact hsubset (htyped.mem_collect hc hitem hpart)
  | body hkind hchild =>
    have hof := isOfKind_ofEntries hn hkind (by decide)
    cases hbuilds with
    | program _ _ hbody => exact hchild.mem_nodesAt hc hbody
    | _ => cases hof
  | callee hkind hchild =>
    have hof := isOfKind_ofEntries hn hkind (by decide)
    cases hbuilds with
    | call _ hcallee _ =>
      obtain rfl := Except.ok.inj ((hchild.expectedNode_eq hc).symm.trans hcallee)
      exact List.mem_cons_self
    | _ => cases hof
  | argument hkind hchild =>
    have hof := isOfKind_ofEntries hn hkind (by decide)
    cases hbuilds with
    | call _ _ harguments => exact List.mem_cons_of_mem _ (hchild.mem_nodesAt hc harguments)
    | _ => cases hof
  | object hkind hchild =>
    have hof := isOfKind_ofEntries hn hkind (by decide)
    cases hbuilds with
    | member _ hobject _ =>
      obtain rfl := Except.ok.inj ((hchild.expectedNode_eq hc).symm.trans hobject)
      exact List.mem_cons_self
    | _ => cases hof
  | property hkind hchild =>
    have hof := isOfKind_ofEntries hn hkind (by decide)
    cases hbuilds with
    | member _ _ hproperty =>
      obtain rfl := Except.ok.inj ((hchild.expectedNode_eq hc).symm.trans hproperty)
      exact List.mem_cons_of_mem _ List.mem_cons_self
    | _ => cases hof
  | expression hkind hchild =>
    have hof := isOfKind_ofEntries hn hkind (by decide)
    cases hbuilds with
    | container _ hexpression =>
      obtain rfl := Except.ok.inj ((hchild.nodeAt_eq hc).symm.trans hexpression)
      exact List.mem_cons_self
    | _ => cases hof
  | attributeValue hkind hchild =>
    have hof := isOfKind_ofEntries hn hkind (by decide)
    cases hbuilds with
    | tagAttribute _ _ hvalue =>
      obtain rfl := Except.ok.inj ((hchild.nodeAt_eq hc).symm.trans hvalue)
      rw [Payload.attributeValue_some (hchildKind hchild.2 (by decide))]
      exact List.mem_cons_of_mem _ List.mem_cons_self
    | _ => cases hof
  | attributeKey hkind hchild =>
    have hof := isOfKind_ofEntries hn hkind (by decide)
    cases hbuilds with
    | tagAttribute _ hkey _ =>
      obtain rfl := Except.ok.inj ((hchild.nodeAt_eq hc).symm.trans hkey)
      rw [Payload.attributeKey_some _ (hchildKind hchild.2 (by decide))]
      exact List.mem_cons_self
    | _ => cases hof
  | keyArgument hkind hchild =>
    have hof := isOfKind_ofEntries hn hkind (by decide)
    cases hbuilds with
    | directiveKey _ _ hargument _ =>
      rw [Payload.keyArgument, Payload.value_ofEntries hchild.1, hchild.nodeAt_eq hc] at hargument
      obtain rfl := Except.ok.inj hargument
      exact List.mem_cons_of_mem _ List.mem_cons_self
    | _ => cases hof
  | tagAttribute hkind hchild =>
    have hof := isOfKind_ofEntries hn hkind (by decide)
    have hattribute : Payload.isAttribute c = true := by
      obtain ⟨_, _, _, _, _, htyped⟩ := hchild
      exact Payload.isAttribute_of_isOfKind (hchildKind htyped (by decide))
    cases hbuilds with
    | startTag _ hattributes =>
      exact List.mem_filter.2 ⟨hchild.mem_nodesAt hc hattributes, hattribute⟩
    | _ => cases hof
  | startTag hkind hchild =>
    have hof := isOfKind_ofEntries hn hkind (by decide)
    cases hbuilds with
    | element _ _ htag _ _ =>
      obtain rfl := Except.ok.inj ((hchild.nodeAt_eq hc).symm.trans htag)
      rw [Option.filter_some, if_pos (hchildKind hchild.2 (by decide))]
      exact List.mem_cons_self
    | _ => cases hof
  | content hkind hchild =>
    have hof := isOfKind_ofEntries hn hkind (by decide)
    cases hbuilds with
    | element _ _ _ _ hchildren =>
      exact List.mem_cons_of_mem _ (List.mem_append_left _ (hchild.mem_nodesAt hc hchildren))
    | _ => cases hof

/-- The integers in the items of a sequence with short integers are short. -/
theorem hasShortIntegers_of_mem_items {v w : Value} {items : List Value}
    (h : v.hasShortIntegers = true) (hitems : v.sequenceItems? = some items) (hw : w ∈ items) :
    w.hasShortIntegers = true := by
  cases v with
  | list | tuple =>
    obtain rfl := Option.some.inj hitems
    rw [Value.hasShortIntegers, Value.haveShortIntegers_iff] at h
    exact h w hw
  | _ => cases hitems

/-- The integers in a field of a mapping with short integers are short. -/
theorem hasShortIntegers_of_lookup? {key : String} {v : Value}
    (h : (Value.map m).hasShortIntegers = true) (hv : Value.lookup? key m = some v) :
    v.hasShortIntegers = true := by
  obtain ⟨entry, hentry, rfl⟩ := Option.map_eq_some_iff.1 hv
  exact Value.hasShortIntegers_of_mem_map h (List.mem_of_find?_eq_some hentry)

/-- A step leads from a mapping with short integers to one with short integers. -/
theorem Enters.hasShortIntegers (h : m.Enters child)
    (hm : (Value.map m).hasShortIntegers = true) : (Value.map child).hasShortIntegers = true := by
  have hfield {key kind : String} (hchild : m.HoldsAt key child kind) :
      (Value.map child).hasShortIntegers = true :=
    hasShortIntegers_of_lookup? hm hchild.1
  have hitem {key kind : String} (hchild : m.ListsAt key child kind) :
      (Value.map child).hasShortIntegers = true := by
    obtain ⟨v, items, hv, hitems, hmem, -⟩ := hchild
    exact hasShortIntegers_of_mem_items (hasShortIntegers_of_lookup? hm hv) hitems hmem
  cases h with
  | unknownField _ _ _ hentry => exact Value.hasShortIntegers_of_mem_map hm hentry
  | unknownItem _ _ _ hentry hitems hmem =>
    exact hasShortIntegers_of_mem_items (Value.hasShortIntegers_of_mem_map hm hentry)
      hitems hmem
  | callee _ hchild | object _ hchild | property _ hchild | expression _ hchild
  | attributeValue _ hchild | attributeKey _ hchild | keyArgument _ hchild
  | startTag _ hchild => exact hfield hchild
  | body _ hchild | argument _ hchild | tagAttribute _ hchild | content _ hchild =>
    exact hitem hchild

/-- A mapping with short integers stands for a node. -/
theorem exists_ofEntries (h : (Value.map m).hasShortIntegers = true) :
    ∃ n, Node.ofEntries m = .ok n := by
  obtain ⟨n, hn, -⟩ := Node.ofEntries_yields (P := fun _ => True) (fun _ _ => trivial) h
  exact ⟨n, hn⟩

/-- A run of steps down the mappings leads to a node below the first. -/
theorem exists_mem_inOrder (h : Relation.ReflTransGen Enters m child)
    (hshort : (Value.map m).hasShortIntegers = true) (hn : Node.ofEntries m = .ok n) :
    ∃ c ∈ n.inOrder VisitorKeys.default, Node.ofEntries child = .ok c := by
  -- By the first step: a walk meets the nodes below a held node after that node itself.
  induction h using Relation.ReflTransGen.head_induction_on generalizing n with
  | refl => exact ⟨n, n.mem_inOrder_self _, hn⟩
  | head hstep _ ih =>
    have hnext := hstep.hasShortIntegers hshort
    obtain ⟨k, hk⟩ := exists_ofEntries hnext
    obtain ⟨c, hc, hread⟩ := ih hnext hk
    have hheld := hstep.mem_held hn hk
    rw [← Node.heldNodes_default] at hheld
    exact ⟨c, Node.mem_inOrder_of_mem_heldNodes hheld hc, hread⟩

end Mapping

/-- A call by the name of a translator contributes what its first argument does. -/
theorem Place.callKey?_cons {callee first : Node} {rest : List Node} {name : String}
    (hcalled : callee.calledName? = some name) (hname : name ∈ translatorNames) :
    callKey? callee (first :: rest) = first.literalKey? := by
  simp only [callKey?, hcalled]
  exact if_pos (List.contains_iff_mem.2 hname)

namespace Node

/-- Relinking keeps the name that a callee is called by. -/
theorem calledName?_relinked (n : Node) : n.relinked.calledName? = n.calledName? := by
  cases n with
  | member _ _ property _ _ => cases property <;> rfl
  | _ => rfl

/-- Relinking keeps the key that a literal contributes. -/
theorem literalKey?_relinked (n : Node) : n.relinked.literalKey? = n.literalKey? := by
  cases n <;> rfl

/-- Linking keeps the key that a call contributes. -/
theorem callKey?_relinked (callee : Node) (arguments : List Node) :
    Place.callKey? callee.relinked (arguments.map relinked) =
      Place.callKey? callee arguments := by
  unfold Place.callKey?
  rw [calledName?_relinked]
  cases callee.calledName? with
  | none => rfl
  | some name =>
    cases arguments with
    | nil => rfl
    | cons first rest => simp only [List.map_cons, literalKey?_relinked]

/-- A call with its links attached contributes the key of the call, wherever it stands. -/
theorem key?_call_relinked {mark : Mark Node} {callee : Node} {arguments : List Node}
    {optional : Bool} (above : List Node) :
    Place.key? ⟨(call mark callee arguments optional).relinked, above⟩ =
      Place.callKey? callee arguments := by
  rw [← callKey?_relinked, ← linkEach_true]
  rfl

/-- A finished call contributes the key of the call. -/
theorem key?_call_linked {mark : Mark Node} {callee : Node} {arguments : List Node}
    {optional : Bool} (above : List Node) :
    Place.key? ⟨(call mark callee arguments optional).linked, above⟩ =
      Place.callKey? callee arguments := by
  rw [← callKey?_relinked, ← linkEach_true]
  rfl

/-- A finished tree holds the relinked nodes that the tree holds. -/
theorem held_linked (n : Node) : n.linked.held = n.held.map relinked := by
  rw [← held_linkBelow]
  unfold linked
  split
  · rename_i heq
    rw [heq]
    rfl
  · rfl

/-- In a finished tree the nodes below the root are those of the tree, each relinked. -/
theorem relinked_mem_inOrder_linked {n c : Node} (h : c ∈ n.inOrder VisitorKeys.default)
    (hne : c ≠ n) : c.relinked ∈ n.linked.inOrder VisitorKeys.default := by
  rw [inOrder_eq, heldNodes_default] at h
  obtain ⟨m, hm, hc⟩ := List.mem_flatMap.1 ((List.mem_cons.1 h).resolve_left hne)
  have hheld : m.relinked ∈ n.linked.heldNodes VisitorKeys.default := by
    rw [heldNodes_default, held_linked]
    exact List.mem_map_of_mem hm
  refine mem_inOrder_of_mem_heldNodes hheld ?_
  rw [inOrder_relinked]
  exact List.mem_map_of_mem hc

/-- The template of a finished program is met relinked. -/
theorem exists_templatePlace {mark : Mark Node} {body : List Node} {template c : Node}
    (h : c ∈ template.inOrder VisitorKeys.default) :
    ∃ p ∈ (program mark body (some template)).linked.templatePlaces, p.node = c.relinked := by
  have hmem : c.relinked ∈ (((Place.root (program mark body (some template)).linked).down
      template.relinked).preorder VisitorKeys.default).map Place.node := by
    rw [Place.map_node_preorder VisitorKeys.onlyDown_default]
    change c.relinked ∈ template.relinked.inOrder VisitorKeys.default
    rw [inOrder_relinked]
    exact List.mem_map_of_mem h
  exact List.mem_map.1 hmem

end Node

namespace Mapping

variable {m : Mapping} {n c : Node}

/-- The name of a translator is read as a name that is called by it. -/
theorem IsTranslatorName.eq_identifier (h : m.IsTranslatorName) (hn : Node.ofEntries m = .ok n) :
    ∃ mark, ∃ name ∈ translatorNames, n = .identifier mark name := by
  obtain ⟨htyped, name, hname, hfield⟩ := h
  have hbuilds := builds_ofEntries hn
  have hof := isOfKind_ofEntries hn htyped.kind_eq (by decide)
  cases hbuilds with
  | identifier _ htext =>
    obtain rfl := Except.ok.inj ((Payload.text_ofEntries hfield).symm.trans htext)
    exact ⟨_, name, hname, rfl⟩
  | _ => cases hof

/-- A translator is called by the name of one. -/
theorem IsTranslator.calledName?_eq (h : m.IsTranslator)
    (hshort : (Value.map m).hasShortIntegers = true) (hn : Node.ofEntries m = .ok n) :
    ∃ name ∈ translatorNames, n.calledName? = some name := by
  cases h with
  | name h =>
    obtain ⟨mark, name, hname, rfl⟩ := h.eq_identifier hn
    exact ⟨name, hname, rfl⟩
  | @property property htyped hproperty h =>
    obtain ⟨k, hk⟩ := exists_ofEntries (hasShortIntegers_of_lookup? hshort hproperty)
    have hbuilds := builds_ofEntries hn
    have hof := isOfKind_ofEntries hn htyped.kind_eq (by decide)
    have hholds : m.HoldsAt "property" property "Identifier" := ⟨hproperty, h.1⟩
    obtain ⟨mark, name, hname, rfl⟩ := h.eq_identifier hk
    cases hbuilds with
    | member _ _ hread =>
      obtain rfl := Except.ok.inj ((hholds.expectedNode_eq hk).symm.trans hread)
      exact ⟨name, hname, rfl⟩
    | _ => cases hof

/-- A literal of a scalar is read as one with its value. -/
theorem IsTyped.eq_literal (htyped : m.IsTyped "Literal") {value : Value}
    (hvalue : Value.lookup? "value" m = some value) (hscalar : value.IsScalar)
    (hn : Node.ofEntries m = .ok n) : ∃ mark raw, n = .literal mark (Scalar.ofValue value) raw := by
  have hbuilds := builds_ofEntries hn
  have hof := isOfKind_ofEntries hn htyped.kind_eq (by decide)
  cases hbuilds with
  | literal _ hread =>
    rw [Payload.value_ofEntries hvalue, Payload.scalarOf_eq_ofValue hscalar] at hread
    obtain rfl := Except.ok.inj hread
    exact ⟨_, _, rfl⟩
  | _ => cases hof

/-- The first argument of a call is read as its first argument. -/
theorem exists_nodesAt_eq_cons {key kind : String} {v : Value} {first : Mapping}
    {rest : List Value} (hv : Value.lookup? key m = some v)
    (hitems : v.sequenceItems? = some (.map first :: rest)) (htyped : first.IsTyped kind)
    (hc : Node.ofEntries first = .ok c) {ns : List Node}
    (hns : (Payload.ofEntries m).nodesAt key = .ok ns) : ∃ others, ns = c :: others := by
  have hcollect : Reading.collect ((.map first :: rest).map Reading.ofValue) = .ok ns := by
    rw [Payload.nodesAt, Payload.get?_ofEntries, hv] at hns
    exact (Reading.nodes_ofValue hitems).2.symm.trans hns
  rw [Reading.collect, List.map_cons, List.filterMap_cons_some htyped.node_ofValue, hc] at hcollect
  obtain ⟨k, hk, hcollect⟩ := bind_eq_ok_iff.1 ((List.mapM_cons).symm.trans hcollect)
  obtain ⟨others, -, hcollect⟩ := bind_eq_ok_iff.1 hcollect
  obtain rfl := Except.ok.inj hk
  exact ⟨others, (Except.ok.inj hcollect).symm⟩

/-- A call of a translator is read as a call that contributes the text of its literal. -/
theorem IsTranslatorCall.eq_call {value : Value} (h : m.IsTranslatorCall value)
    (hshort : (Value.map m).hasShortIntegers = true) (hn : Node.ofEntries m = .ok n) :
    ∃ mark callee arguments optional text, n = .call mark callee arguments optional ∧
      (Scalar.ofValue value).scriptText = .ok text ∧
      Place.callKey? callee arguments = .ok (some text) := by
  obtain ⟨callee, hcallee, htranslator⟩ := h.callee
  obtain ⟨v, literal, rest, harguments, hitems, htyped, hvalue⟩ := h.argument
  have hcalleeShort := hasShortIntegers_of_lookup? hshort hcallee
  have hliteralShort := hasShortIntegers_of_mem_items
    (hasShortIntegers_of_lookup? hshort harguments) hitems List.mem_cons_self
  obtain ⟨calleeNode, hcalleeNode⟩ := exists_ofEntries hcalleeShort
  obtain ⟨literalNode, hliteralNode⟩ := exists_ofEntries hliteralShort
  obtain ⟨name, hname, hcalled⟩ := htranslator.calledName?_eq hcalleeShort hcalleeNode
  obtain ⟨mark, raw, rfl⟩ := htyped.eq_literal hvalue h.scalar hliteralNode
  have htoken : (Scalar.ofValue value).IsToken :=
    (Payload.scalarOf_yields (hasShortIntegers_of_lookup? hliteralShort hvalue)).of_eq_ok
      (Payload.scalarOf_eq_ofValue h.scalar)
  obtain ⟨text, htext⟩ := htoken.exists_scriptText
  have hholds : ∃ kind, m.HoldsAt "callee" callee kind := by
    cases htranslator with
    | name h => exact ⟨_, hcallee, h.1⟩
    | property htyped => exact ⟨_, hcallee, htyped⟩
  obtain ⟨kind, hholds⟩ := hholds
  have hbuilds := builds_ofEntries hn
  have hof := isOfKind_ofEntries hn h.kind.kind_eq (by decide)
  cases hbuilds with
  | call _ hreadCallee hreadArguments =>
    obtain rfl := Except.ok.inj ((hholds.expectedNode_eq hcalleeNode).symm.trans hreadCallee)
    obtain ⟨others, rfl⟩ :=
      exists_nodesAt_eq_cons harguments hitems htyped hliteralNode hreadArguments
    refine ⟨_, _, _, _, text, rfl, htext, ?_⟩
    rw [Place.callKey?_cons hcalled hname, Node.literalKey?, if_pos h.truthy, htext]
    rfl
  | _ => cases hof

/-- A place among those that are searched for keys, and the call that is linked at it. -/
theorem Reaches.exists_place {root : Mapping} (h : root.Reaches m)
    (hshort : (Value.map root).hasShortIntegers = true) (hn : Node.ofEntries root = .ok n) :
    ∃ c, Node.ofEntries m = .ok c ∧
      ∃ p ∈ n.linked.templatePlaces ++ (Place.root n.linked).preorder VisitorKeys.default,
        p.node = c.linked ∨ p.node = c.relinked := by
  cases h with
  | script hsteps =>
    obtain ⟨c, hc, hread⟩ := exists_mem_inOrder hsteps hshort hn
    refine ⟨c, hread, ?_⟩
    have hplace {k : Node} (hk : k ∈ n.linked.inOrder VisitorKeys.default) :
        ∃ p ∈ n.linked.templatePlaces ++ (Place.root n.linked).preorder VisitorKeys.default,
          p.node = k := by
      have hk : k ∈ ((Place.root n.linked).preorder VisitorKeys.default).map Place.node := by
        rwa [Place.map_node_preorder VisitorKeys.onlyDown_default]
      obtain ⟨p, hp, hnode⟩ := List.mem_map.1 hk
      exact ⟨p, List.mem_append_right _ hp, hnode⟩
    -- The root is finished as a whole, and all nodes below it are relinked.
    by_cases heq : c = n
    · obtain ⟨p, hp, hnode⟩ := hplace (n.linked.mem_inOrder_self _)
      exact ⟨p, hp, .inl (heq ▸ hnode)⟩
    · obtain ⟨p, hp, hnode⟩ := hplace (Node.relinked_mem_inOrder_linked hc heq)
      exact ⟨p, hp, .inr hnode⟩
  | template hkind hbody hsteps =>
    have hbodyShort := hasShortIntegers_of_lookup? hshort hbody.1
    obtain ⟨t, ht⟩ := exists_ofEntries hbodyShort
    have hof := isOfKind_ofEntries ht hbody.2.kind_eq (by decide)
    obtain ⟨c, hc, hread⟩ := exists_mem_inOrder hsteps hbodyShort ht
    have hbuilds := builds_ofEntries hn
    have hprogram := isOfKind_ofEntries hn hkind (by decide)
    cases hbuilds with
    | program _ htemplate _ =>
      obtain rfl := Except.ok.inj ((hbody.nodeAt_eq ht).symm.trans htemplate)
      rw [Option.filter_some, if_pos hof]
      obtain ⟨p, hp, hnode⟩ := Node.exists_templatePlace hc
      exact ⟨c, hread, p, List.mem_append_left _ hp, .inr hnode⟩
    | _ => cases hprogram

/-- A run of steps leads from a mapping with short integers to one with short integers. -/
theorem hasShortIntegers_of_steps {child : Mapping} (h : Relation.ReflTransGen Enters m child)
    (hshort : (Value.map m).hasShortIntegers = true) :
    (Value.map child).hasShortIntegers = true := by
  induction h with
  | refl => exact hshort
  | tail _ hstep ih => exact hstep.hasShortIntegers ih

/-- What is reached from a mapping with short integers has short integers. -/
theorem Reaches.hasShortIntegers {root : Mapping} (h : root.Reaches m)
    (hshort : (Value.map root).hasShortIntegers = true) :
    (Value.map m).hasShortIntegers = true := by
  cases h with
  | script hsteps => exact hasShortIntegers_of_steps hsteps hshort
  | template _ hbody hsteps =>
    exact hasShortIntegers_of_steps hsteps (hasShortIntegers_of_lookup? hshort hbody.1)

/-- Reading loses no translator call. From the tree that a mapping with short integers stands for,
the text of the literal of every translator call that is reached from the root is extracted under
the default visitor keys. -/
theorem exists_key_of_reaches {root m : Mapping} {value : Value}
    (hshort : (Value.map root).hasShortIntegers = true) (hreach : root.Reaches m)
    (hcall : m.IsTranslatorCall value) :
    ∃ n keys text, Node.ofValue (.map root) = .ok n ∧ n.keysUnder .null = .ok keys ∧
      (Scalar.ofValue value).scriptText = .ok text ∧ text ∈ keys := by
  obtain ⟨n, hn, -, htyped⟩ := Node.ofEntries_yields Payload.keptByRules_isWellTyped hshort
  have hfits := (Node.everywhere_isWellTyped_linked htyped).imp fun _ h => h.fits
  obtain ⟨keys, hkeys, hmem⟩ := Node.keysUnder_null_yields hfits
  obtain ⟨c, hc, p, hp, hnode⟩ := hreach.exists_place hshort hn
  obtain ⟨mark, callee, arguments, optional, text, rfl, htext, hkey⟩ :=
    hcall.eq_call (hreach.hasShortIntegers hshort) hc
  have hfound : p.key? = .ok (some text) := by
    obtain ⟨node, above⟩ := p
    rcases hnode with rfl | rfl
    · rw [Node.key?_call_linked, hkey]
    · rw [Node.key?_call_relinked, hkey]
  exact ⟨n.linked, keys, text, by rw [Node.ofValue, hn]; rfl, hkeys, htext, hmem p hp text hfound⟩

/-- A call `this.$t(7)`. -/
def sampleTranslation : Mapping :=
  [(.str "type", .str "CallExpression"),
    (.str "callee", .map [(.str "type", .str "MemberExpression"),
      (.str "object", .map [(.str "type", .str "ThisExpression")]),
      (.str "property", .map [(.str "type", .str "Identifier"), (.str "name", .str "$t")])]),
    (.str "arguments", .tuple [.map [(.str "type", .str "Literal"), (.str "value", .int 7)]])]

/-- A node of an unknown kind with the call in one of its fields. -/
def sampleBranch : Mapping :=
  [(.str "type", .str "ConditionalExpression"), (.str "range", .list [.int 4, .int 9]),
    (.str "branches", .list [.null, .map sampleTranslation])]

/-- A split key whose argument is the branch. -/
def sampleKey : Mapping :=
  [(.str "type", .str "VDirectiveKey"), (.str "name", .str "bind"),
    (.str "argument", .map sampleBranch)]

/-- A directive with the split key. -/
def sampleDirective : Mapping :=
  [(.str "type", .str "VAttribute"), (.str "directive", .bool true), (.str "key", .map sampleKey)]

/-- An opening tag with the directive. -/
def sampleOpening : Mapping :=
  [(.str "type", .str "VStartTag"), (.str "attributes", .list [.map sampleDirective])]

/-- An element with the opening tag. -/
def sampleTemplate : Mapping :=
  [(.str "type", .str "VElement"), (.str "startTag", .map sampleOpening)]

/-- A program with the element as its template. -/
def sampleProgram : Mapping :=
  [(.str "type", .str "Program"), (.str "body", .list []),
    (.str "templateBody", .map sampleTemplate)]

/-- The call is a call of a translator. -/
theorem sampleTranslation_isTranslatorCall : sampleTranslation.IsTranslatorCall (.int 7) where
  kind := rfl
  callee := ⟨_, rfl, .property rfl rfl ⟨rfl, "$t", by decide, rfl⟩⟩
  argument := ⟨_, _, [], rfl, rfl, rfl, rfl⟩
  scalar := trivial
  truthy := rfl

/-- The call is reached from the program, through its template. -/
theorem sampleProgram_reaches : sampleProgram.Reaches sampleTranslation := by
  have hread : Value.str "branches" ∉ Payload.metadataFields.map Value.str := by
    simp [Payload.metadataFields]
  have hbranch : sampleBranch.Enters sampleTranslation :=
    .unknownItem rfl (by decide) hread
      (List.mem_cons_of_mem _ (List.mem_cons_of_mem _ List.mem_cons_self)) rfl
      (List.mem_cons_of_mem _ List.mem_cons_self) rfl
  have hkey : sampleKey.Enters sampleBranch := .keyArgument rfl ⟨rfl, rfl⟩
  have hdirective : sampleDirective.Enters sampleKey := .attributeKey rfl ⟨rfl, rfl⟩
  have hopening : sampleOpening.Enters sampleDirective :=
    .tagAttribute rfl ⟨_, _, rfl, rfl, List.mem_cons_self, rfl⟩
  have htemplate : sampleTemplate.Enters sampleOpening := .startTag rfl ⟨rfl, rfl⟩
  refine .template rfl ⟨rfl, rfl⟩ (.head htemplate (.head hopening (.head hdirective ?_)))
  exact .head hkey (.single hbranch)

/-- The key of the call in the sample program is extracted. -/
theorem exists_key_of_sampleProgram :
    (Value.map sampleProgram).hasShortIntegers = true ∧
      sampleProgram.Reaches sampleTranslation ∧ sampleTranslation.IsTranslatorCall (.int 7) ∧
      ∃ n keys text, Node.ofValue (.map sampleProgram) = .ok n ∧ n.keysUnder .null = .ok keys ∧
        (Scalar.ofValue (.int 7)).scriptText = .ok text ∧ text ∈ keys := by
  have hshort : (Value.map sampleProgram).hasShortIntegers = true := by decide +kernel
  exact ⟨hshort, sampleProgram_reaches, sampleTranslation_isTranslatorCall,
    exists_key_of_reaches hshort sampleProgram_reaches sampleTranslation_isTranslatorCall⟩

end Mapping

end TranslationKeys
