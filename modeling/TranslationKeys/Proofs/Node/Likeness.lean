import TranslationKeys.Proofs.Node.KeysByTree

/-!
# Trees that cannot be told apart

Two nodes are alike if they look the same to whatever holds them and if they and the nodes below
them contribute the same keys. Every kind of node is built in such a way that parts that are alike
give wholes that are alike; so a change deep inside a mapping that leaves a part alike leaves the
keys of the tree that is read from it.
-/

namespace TranslationKeys

/-- If the first of two steps succeeds, so does the second, with a related result. -/
def Leads {α β : Type} (r : α → β → Prop) (x : Except Failure α) (y : Except Failure β) : Prop :=
  ∀ a, x = .ok a → ∃ b, y = .ok b ∧ r a b

namespace Leads

variable {α β α' β' : Type} {r : α → β → Prop} {s : α' → β' → Prop} {x : Except Failure α}
  {y : Except Failure β}

/-- A given result leads to a related one. -/
theorem pure {a : α} {b : β} (h : r a b) : Leads r (Pure.pure a) (Pure.pure b) := by
  intro a' heq
  obtain rfl := Except.ok.inj heq
  exact ⟨b, rfl, h⟩

/-- Steps that lead to each other, followed by steps that do so on related results, lead to each
other. -/
theorem bind (h : Leads r x y) {f : α → Except Failure α'} {g : β → Except Failure β'}
    (hfg : ∀ a b, r a b → Leads s (f a) (g b)) : Leads s (x >>= f) (y >>= g) := by
  intro c hc
  obtain ⟨a, hx, hf⟩ := bind_eq_ok_iff.1 hc
  obtain ⟨b, rfl, hab⟩ := h a hx
  exact hfg a b hab c hf

/-- A step leads to itself, whatever is asked of equal results. -/
theorem refl {r : α → α → Prop} (h : ∀ a, r a a) (x : Except Failure α) : Leads r x x :=
  fun a hx => ⟨a, hx, h a⟩

/-- Equal steps lead to each other. -/
theorem of_eq {x y : Except Failure α} (h : x = y) : Leads Eq x y :=
  h ▸ refl (fun _ => rfl) x

/-- The steps of a list lead to those of another one if they do so one by one. -/
theorem mapM {q : α' → β' → Prop} {f : α' → Except Failure α} {g : β' → Except Failure β}
    {xs : List α'} {ys : List β'} (h : List.Forall₂ q xs ys)
    (hfg : ∀ a b, q a b → Leads r (f a) (g b)) :
    Leads (List.Forall₂ r) (xs.mapM f) (ys.mapM g) := by
  induction h with
  | nil => exact pure .nil
  | cons hab _ ih =>
    rw [List.mapM_cons, List.mapM_cons]
    exact (hfg _ _ hab).bind fun _ _ hhead => ih.bind fun _ _ htail => pure (.cons hhead htail)

end Leads

namespace Node

/-- A node without its mark and without the nodes that it holds. -/
def cut : Node → Node
  | generic _ tag _ => generic {} tag []
  | identifier _ name => identifier {} name
  | literal _ value raw => literal {} value raw
  | call _ _ _ optional => call {} default [] optional
  | member _ _ _ computed optional => member {} default default computed optional
  | templateName _ name _ => templateName {} name name
  | directiveKey .. => directiveKey {} default none []
  | templateLiteral _ value => templateLiteral {} value
  | container .. => container {} none
  | tagAttribute _ directive _ _ => tagAttribute {} directive default none
  | startTag _ _ selfClosing => startTag {} [] selfClosing
  | endTag _ => endTag {}
  | templateText _ value => templateText {} value
  | element _ name rawName _ _ _ => element {} name rawName default [] none
  | program .. => program {} [] none

/-- What the holder of a node looks at when it is built or asked for its key. -/
def outline : Node → Node
  | member _ _ property computed optional => member {} default property.cut computed optional
  | directiveKey _ name _ _ => directiveKey {} name.cut none []
  | container _ expression => container {} (expression.map cut)
  | n => n.cut

section Outline

variable (n : Node)

/-- The name that a node is called by is seen in its outline. -/
theorem calledName?_outline : n.outline.calledName? = n.calledName? := by
  cases n with
  | member _ _ property => cases property <;> rfl
  | _ => rfl

/-- The key of a literal is seen when it is cut. -/
theorem literalKey?_cut : n.cut.literalKey? = n.literalKey? := by
  cases n <;> rfl

/-- The key of a literal is seen in its outline. -/
theorem literalKey?_outline : n.outline.literalKey? = n.literalKey? := by
  cases n <;> rfl

/-- The kind of a node is seen in its outline. -/
theorem isOfKind_outline (kind : String) : n.outline.isOfKind kind = n.isOfKind kind := by
  cases n <;> rfl

/-- The name of an element is seen in its outline. -/
theorem elementName?_outline : n.outline.elementName? = n.elementName? := by
  cases n <;> rfl

/-- Whether a node names the translation directive is seen when it is cut. -/
theorem namesTranslation_cut : n.cut.namesTranslation = n.namesTranslation := by
  cases n <;> rfl

/-- The key of the value of a directive is seen in its outline. -/
theorem valueKey?_outline (value : Option Node) :
    valueKey? (value.map outline) = valueKey? value := by
  cases value with
  | none => rfl
  | some value =>
    cases value with
    | container _ expression =>
      cases expression with
      | none => rfl
      | some expression => exact literalKey?_cut expression
    | _ => rfl

/-- The key of a directive is seen in the outlines of its parts. -/
theorem directiveKey?_outline (key : Node) (value : Option Node) :
    Place.directiveKey? key.outline (value.map outline) = Place.directiveKey? key value := by
  cases key with
  | directiveKey _ name _ _ =>
    rw [directiveKey?_split, ← valueKey?_outline, ← namesTranslation_cut]
    exact directiveKey?_split _ name.cut _ _ _
  | _ => rfl

/-- The key of a plain attribute is seen in the outlines of its parts. -/
theorem pathKeyUnder_outline (element : Option String) (key : Node) (value : Option Node) :
    pathKeyUnder element key.outline (value.map outline) = pathKeyUnder element key value := by
  cases key with
  | templateName =>
    cases value with
    | none => rfl
    | some value => cases value <;> rfl
  | _ => rfl

/-- The key of a call is seen in the outlines of its parts. -/
theorem callKey?_outline (callee : Node) (arguments : List Node) :
    Place.callKey? callee.outline (arguments.map outline) = Place.callKey? callee arguments := by
  unfold Place.callKey?
  rw [calledName?_outline]
  cases callee.calledName? with
  | none => rfl
  | some name =>
    cases arguments with
    | nil => rfl
    | cons first rest => simp only [List.map_cons, literalKey?_outline]

end Outline

/-- Two nodes that cannot be told apart by what holds them, and that contribute the same keys. -/
structure Alike (n n' : Node) : Prop where
  /-- The holder sees the same. -/
  outline : n.outline = n'.outline
  /-- The same keys are contributed by the node and the nodes below it. -/
  keys : ∀ parent grand, n.keysIn parent grand = n'.keysIn parent grand
  /-- The same keys are contributed by the template of a program. -/
  template : n.keysInTemplate = n'.keysInTemplate

namespace Alike

variable {n n' : Node}

/-- A node is like itself. -/
theorem refl (n : Node) : n.Alike n :=
  ⟨rfl, fun _ _ => rfl, rfl⟩

/-- Likeness goes both ways. -/
theorem symm (h : n.Alike n') : n'.Alike n :=
  ⟨h.outline.symm, fun parent grand => (h.keys parent grand).symm, h.template.symm⟩

/-- What is like one of two nodes that are alike is like the other. -/
theorem trans {n'' : Node} (h : n.Alike n') (h' : n'.Alike n'') : n.Alike n'' :=
  ⟨h.outline.trans h'.outline,
    fun parent grand => (h.keys parent grand).trans (h'.keys parent grand),
    h.template.trans h'.template⟩

/-- Likeness is reflexive, which relations of optional nodes and lists ask for. -/
instance : Std.Refl Alike := ⟨refl⟩

/-- Nodes that are alike are of the same kind. -/
theorem isOfKind_eq (h : n.Alike n') (kind : String) : n.isOfKind kind = n'.isOfKind kind := by
  rw [← isOfKind_outline, h.outline, isOfKind_outline]

/-- Lists of nodes that are alike have the same outlines. -/
theorem map_outline_eq {ns ns' : List Node} (h : List.Forall₂ Alike ns ns') :
    ns.map Node.outline = ns'.map Node.outline :=
  map_eq_map_of_forall₂ (fun hn => hn.outline) h

/-- Optional nodes that are alike have the same outline. -/
theorem option_map_outline_eq {n n' : Option Node} (h : Option.Rel Alike n n') :
    n.map Node.outline = n'.map Node.outline := by
  cases h with
  | some hn => exact congrArg some hn.outline
  | none => rfl

/-- Optional nodes that are alike are alike as lists. -/
theorem forall₂_toList {n n' : Option Node} (h : Option.Rel Alike n n') :
    List.Forall₂ Alike n.toList n'.toList := by
  cases h with
  | some hn => exact .cons hn .nil
  | none => exact .nil

end Alike

/-- The keys of a node are its own and those of the nodes that it holds. -/
theorem keysIn_congr {n n' : Node} {parent grand : Option String}
    (hkey : n.keyUnder grand = n'.keyUnder grand)
    (hheld : List.Forall₂ (fun m m' => m.keysIn n.elementName? parent =
      m'.keysIn n'.elementName? parent) n.held n'.held) :
    n.keysIn parent grand = n'.keysIn parent grand := by
  have hcons (n : Node) : n.keysIn parent grand =
      gather ([n.keyUnder grand] ++ n.held.flatMap (answers n.elementName? parent)) := by
    rw [keysIn, answers_eq]
    rfl
  rw [hcons, hcons, gather_append, gather_append, hkey, gather_flatMap_congr hheld]

/-- Nodes with the same outline that hold nodes which are alike are alike if their own keys are. -/
theorem alike_of_held {n n' : Node} (houtline : n.outline = n'.outline)
    (hkey : ∀ grand, n.keyUnder grand = n'.keyUnder grand)
    (hheld : List.Forall₂ Alike n.held n'.held) (htemplate : n.keysInTemplate = n'.keysInTemplate) :
    n.Alike n' where
  outline := houtline
  template := htemplate
  keys parent grand := by
    have hname : n.elementName? = n'.elementName? := by
      rw [← elementName?_outline, houtline, elementName?_outline]
    refine keysIn_congr (hkey grand) (hheld.imp fun m m' hm => ?_)
    rw [hname]
    exact hm.keys _ parent

section Congruence

variable {mark mark' : Mark Node}

/-- Generic nodes are alike if their children are. -/
theorem alike_generic {tag : String} {children children' : List Node}
    (h : List.Forall₂ Alike children children') :
    (generic mark tag children).Alike (generic mark' tag children') :=
  alike_of_held rfl (fun _ => rfl) h rfl

/-- Calls are alike if their callees and their arguments are. -/
theorem alike_call {callee callee' : Node} {arguments arguments' : List Node} {optional : Bool}
    (hcallee : callee.Alike callee') (harguments : List.Forall₂ Alike arguments arguments') :
    (call mark callee arguments optional).Alike (call mark' callee' arguments' optional) := by
  refine alike_of_held rfl (fun _ => ?_) (.cons hcallee harguments) rfl
  change Place.callKey? callee arguments = Place.callKey? callee' arguments'
  rw [← callKey?_outline, hcallee.outline, Alike.map_outline_eq harguments, callKey?_outline]

/-- Nodes that look the same are left the same when they are cut. -/
theorem cut_eq_of_outline_eq {n n' : Node} (h : n.outline = n'.outline) : n.cut = n'.cut := by
  have hcut (n : Node) : n.outline.cut = n.cut := by cases n <;> rfl
  rw [← hcut, h, hcut]

/-- Accesses are alike if their objects and their properties are. -/
theorem alike_member {object object' property property' : Node} {computed optional : Bool}
    (hobject : object.Alike object') (hproperty : property.Alike property') :
    (member mark object property computed optional).Alike
      (member mark' object' property' computed optional) := by
  refine alike_of_held ?_ (fun _ => rfl) (.cons hobject (.cons hproperty .nil)) rfl
  rw [outline, outline, cut_eq_of_outline_eq hproperty.outline]

/-- Names of directives are alike if their arguments are. -/
theorem alike_directiveKey {name : Node} {argument argument' : Option Node} {modifiers : List Node}
    (h : Option.Rel Alike argument argument') :
    (directiveKey mark name argument modifiers).Alike
      (directiveKey mark' name argument' modifiers) :=
  alike_of_held rfl (fun _ => rfl) (.cons (.refl name)
    (List.rel_append (Alike.forall₂_toList h) (List.forall₂_refl modifiers))) rfl

/-- Containers are alike if their expressions are. -/
theorem alike_container {expression expression' : Option Node}
    (h : Option.Rel Alike expression expression') :
    (container mark expression).Alike (container mark' expression') := by
  refine alike_of_held ?_ (fun _ => rfl) (Alike.forall₂_toList h) rfl
  cases h with
  | some he => exact congrArg (fun e => container {} (some e)) (cut_eq_of_outline_eq he.outline)
  | none => rfl

/-- Opening tags are alike if their attributes are. -/
theorem alike_startTag {attributes attributes' : List Node} {selfClosing : Bool}
    (h : List.Forall₂ Alike attributes attributes') :
    (startTag mark attributes selfClosing).Alike (startTag mark' attributes' selfClosing) :=
  alike_of_held rfl (fun _ => rfl) h rfl

/-- Elements are alike if their tags and their children are. -/
theorem alike_element {name rawName : String} {tag tag' : Node} {children children' : List Node}
    {closing closing' : Option Node} (htag : tag.Alike tag')
    (hchildren : List.Forall₂ Alike children children')
    (hclosing : Option.Rel Alike closing closing') :
    (element mark name rawName tag children closing).Alike
      (element mark' name rawName tag' children' closing') :=
  alike_of_held rfl (fun _ => rfl)
    (.cons htag (List.rel_append hchildren (Alike.forall₂_toList hclosing))) rfl

/-- Programs are alike if their bodies and their templates are. -/
theorem alike_program {body body' : List Node} {template template' : Option Node}
    (hbody : List.Forall₂ Alike body body') (htemplate : Option.Rel Alike template template') :
    (program mark body template).Alike (program mark' body' template') := by
  refine alike_of_held rfl (fun _ => rfl) hbody ?_
  cases htemplate with
  | some ht => exact ht.keys none none
  | none => rfl

/-- Attributes are alike if their values are and their keys look the same and contribute the same
below an attribute. -/
theorem alike_tagAttribute {directive : Bool} {key key' : Node} {value value' : Option Node}
    (houtline : key.outline = key'.outline)
    (hkeys : ∀ grand, key.keysIn none grand = key'.keysIn none grand)
    (hvalue : Option.Rel Alike value value') :
    (tagAttribute mark directive key value).Alike (tagAttribute mark' directive key' value') where
  outline := rfl
  template := rfl
  keys parent grand := by
    refine keysIn_congr ?_ (.cons (hkeys parent)
      ((Alike.forall₂_toList hvalue).imp fun m m' hm => hm.keys none parent))
    simp only [keyUnder]
    rw [← directiveKey?_outline, ← pathKeyUnder_outline, houtline,
      Alike.option_map_outline_eq hvalue, directiveKey?_outline, pathKeyUnder_outline]

/-- A node with another span is like the node. -/
theorem alike_withSpan (n : Node) (span : Span) : (n.withSpan span).Alike n := by
  refine alike_of_held (by cases n <;> rfl) (by cases n <;> exact fun _ => rfl)
    (by cases n <;> exact List.forall₂_refl _) ?_
  cases n with
  | program _ _ template => cases template <;> rfl
  | _ => rfl

/-- The span of a node is seen by nobody. -/
theorem Alike.withSpan {n n' : Node} (h : n.Alike n') (span span' : Span) :
    (n.withSpan span).Alike (n'.withSpan span') :=
  ((alike_withSpan n span).trans h).trans (alike_withSpan n' span').symm

end Congruence

end Node

/-- A reading that can take the place of another one: a string stays a string, and the nodes are
related. -/
structure Reading.CanBecome (r : Node → Node → Prop) (x y : Reading) : Prop where
  /-- A string stays. -/
  text : ∀ s, x.value = .str s ↔ y.value = .str s
  /-- The node of a typed mapping is related. -/
  node : Option.Rel (Leads r) x.node y.node
  /-- The nodes of a sequence are related. -/
  nodes : Leads (List.Forall₂ r) x.nodes y.nodes

/-- A reading can take its own place. -/
theorem Reading.CanBecome.refl {r : Node → Node → Prop} [Std.Refl r] (x : Reading) :
    x.CanBecome r x where
  text _ := Iff.rfl
  node := by
    cases x.node with
    | none => exact .none
    | some node => exact .some (.refl (Std.Refl.refl) node)
  nodes := .refl List.forall₂_refl x.nodes

namespace Payload

variable {r : Node → Node → Prop} {changes : Value → Bool} {fields fields' : Payload}

/-- Whether a value is the given key. -/
def isKey (key : String) : Value → Bool
  | .str s => s == key
  | _ => false

/-- A field is looked for entry by entry. -/
theorem get?_cons (key : String) (entry : Value × Reading) (fields : Payload) :
    get? (entry :: fields) key = if isKey key entry.1 then some entry.2 else get? fields key := by
  change (List.find? (fun entry => isKey key entry.1) (entry :: fields)).map Prod.snd = _
  rw [List.find?_cons]
  cases isKey key entry.1 <;> rfl

/-- Two mappings with the same fields, of which those that may change hold readings that can take
each other's place. -/
def CanBecome (r : Node → Node → Prop) (changes : Value → Bool) (fields fields' : Payload) : Prop :=
  List.Forall₂ (fun entry entry' => entry.1 = entry'.1 ∧ entry.2.CanBecome r entry'.2 ∧
    (changes entry.1 = false → entry.2 = entry'.2)) fields fields'

namespace CanBecome

/-- The readings of a field can take each other's place. -/
theorem get? (h : fields.CanBecome r changes fields') (key : String) :
    Option.Rel (Reading.CanBecome r) (fields.get? key) (fields'.get? key) := by
  induction h with
  | nil => exact .none
  | cons hentry _ ih =>
    rw [get?_cons, get?_cons, ← hentry.1]
    split
    · exact .some hentry.2.1
    · exact ih

/-- A field that may not change holds the same reading. -/
theorem get?_eq (h : fields.CanBecome r changes fields') {key : String}
    (hkey : changes (.str key) = false) : fields.get? key = fields'.get? key := by
  induction h with
  | nil => rfl
  | @cons entry entry' _ _ hentry _ ih =>
    rw [get?_cons, get?_cons, ← hentry.1, ih]
    split
    · rename_i hfound
      obtain ⟨k, x⟩ := entry
      cases k with
      | str s =>
        obtain rfl : s = key := eq_of_beq hfound
        rw [hentry.2.2 hkey]
      | _ => exact nomatch hfound
    · rfl

/-- The nodes in a field are related. -/
theorem nodeAt (h : fields.CanBecome r changes fields') (key : String) :
    Leads (Option.Rel r) (fields.nodeAt key) (fields'.nodeAt key) := by
  have hread := h.get? key
  unfold Payload.nodeAt
  generalize fields.get? key = x at hread
  generalize fields'.get? key = y at hread
  cases hread with
  | none => exact .pure .none
  | @some x y hread =>
    obtain ⟨value, node, nodes⟩ := x
    obtain ⟨value', node', nodes'⟩ := y
    have hnode := hread.node
    simp only at hnode
    cases hnode with
    | none => exact .pure .none
    | some hnode => exact hnode.bind fun _ _ hr => .pure (.some hr)

/-- The nodes in a field, or their placeholders, are related. -/
theorem expectedNode [Std.Refl r] (h : fields.CanBecome r changes fields') (key : String) :
    Leads r (fields.expectedNode key) (fields'.expectedNode key) := by
  refine (h.nodeAt key).bind fun n n' hn => .pure ?_
  cases hn with
  | none => exact Std.Refl.refl _
  | some hr => exact hr

/-- The nodes in a field are related one by one. -/
theorem nodesAt (h : fields.CanBecome r changes fields') (key : String) :
    Leads (List.Forall₂ r) (fields.nodesAt key) (fields'.nodesAt key) := by
  have hread := h.get? key
  unfold Payload.nodesAt
  generalize fields.get? key = x at hread
  generalize fields'.get? key = y at hread
  cases hread with
  | none => exact .pure .nil
  | some hread => exact hread.nodes

/-- The nodes in the fields of an unknown kind are related one by one. -/
theorem typedNodes (h : fields.CanBecome r changes fields') :
    Leads (List.Forall₂ r) fields.typedNodes fields'.typedNodes := by
  have hkept : List.Forall₂ (fun entry entry' : Value × Reading => entry.2.CanBecome r entry'.2)
      (fields.filter fun entry => !isSkipped entry.1)
      (fields'.filter fun entry => !isSkipped entry.1) := by
    induction h with
    | nil => exact .nil
    | @cons entry entry' _ _ hentry _ ih =>
      obtain ⟨k, x⟩ := entry
      obtain ⟨k', y⟩ := entry'
      obtain ⟨rfl, hxy, -⟩ := hentry
      rw [List.filter_cons, List.filter_cons]
      split
      · exact .cons hxy ih
      · exact ih
  refine (Leads.mapM (r := List.Forall₂ r) hkept fun entry entry' hentry => ?_).bind
    fun found found' hfound => .pure (List.rel_flatten hfound)
  obtain ⟨k, value, node, nodes⟩ := entry
  obtain ⟨k', value', node', nodes'⟩ := entry'
  have hnode := hentry.node
  simp only at hnode
  cases hnode with
  | none => exact hentry.nodes
  | some hread => exact hread.bind fun _ _ hr => .pure (.cons hr .nil)

section Same

variable (h : fields.CanBecome r changes fields') (key : String)
  (hkey : changes (.str key) = false)

include h hkey

/-- A field that may not change keeps its value. -/
theorem value_eq : fields.value key = fields'.value key := by
  rw [value, value, h.get?_eq hkey]

/-- A field that may not change keeps its text. -/
theorem text_eq : fields.text key = fields'.text key := by
  rw [text, text, h.get?_eq hkey]

/-- A field that may not change keeps its truth value. -/
theorem flag_eq : fields.flag key = fields'.flag key := by
  rw [flag, flag, h.value_eq key hkey]

/-- A field that may not change keeps its string, or is missing as before. -/
theorem stringOr_eq (instead : String) :
    fields.stringOr key instead = fields'.stringOr key instead := by
  rw [stringOr, stringOr, h.value_eq key hkey]

/-- A field that may not change keeps its node. -/
theorem nodeAt_eq : fields.nodeAt key = fields'.nodeAt key := by
  rw [Payload.nodeAt, Payload.nodeAt, h.get?_eq hkey]

/-- A field that may not change keeps its nodes. -/
theorem nodesAt_eq : fields.nodesAt key = fields'.nodesAt key := by
  rw [Payload.nodesAt, Payload.nodesAt, h.get?_eq hkey]

end Same

end CanBecome

/-- The fields of a known kind whose nodes become parts of its node. -/
def nodeFields : String → List String
  | "Program" => ["templateBody", "body"]
  | "CallExpression" => ["callee", "arguments"]
  | "MemberExpression" => ["object", "property"]
  | "VDirectiveKey" => ["argument"]
  | "VExpressionContainer" => ["expression"]
  | "VAttribute" => ["key", "value"]
  | "VStartTag" => ["attributes"]
  | "VElement" => ["startTag", "children"]
  | _ => []

/-- Whether the nodes in a field of a mapping of some kind become parts of its node. -/
def ingests (kind : String) : Value → Bool
  | .str key =>
    if knownKinds.contains kind then (nodeFields kind).contains key
    else !metadataFields.contains key
  | _ => !knownKinds.contains kind

/-- The kind of a mapping is no part of its node. -/
theorem ingests_type (kind : String) : ingests kind (.str "type") = false := by
  have hfields : (nodeFields kind).contains "type" = false := by
    unfold nodeFields
    split <;> decide
  rw [ingests]
  split
  · exact hfields
  · decide

/-- Keeping a node only if it is of some kind keeps optional nodes alike. -/
theorem rel_filter_isOfKind {n n' : Option Node} (kind : String)
    (h : Option.Rel Node.Alike n n') :
    Option.Rel Node.Alike (n.filter (Node.isOfKind kind)) (n'.filter (Node.isOfKind kind)) := by
  cases h with
  | none => exact .none
  | some hn =>
    rw [Option.filter_some, Option.filter_some, hn.isOfKind_eq]
    split
    · exact .some hn
    · exact .none

/-- Optional nodes that are alike stay so with a placeholder for a missing one. -/
theorem alike_getD {n n' : Option Node} (placeholder : Node) (h : Option.Rel Node.Alike n n') :
    (n.getD placeholder).Alike (n'.getD placeholder) := by
  cases h with
  | none => exact .refl _
  | some hn => exact hn

/-- Keeping only the attributes keeps nodes alike. -/
theorem forall₂_filter_isAttribute {ns ns' : List Node} (h : List.Forall₂ Node.Alike ns ns') :
    List.Forall₂ Node.Alike (ns.filter isAttribute) (ns'.filter isAttribute) := by
  have hkind (n : Node) : isAttribute n = n.isOfKind "VAttribute" := by cases n <;> rfl
  refine List.rel_filter (fun n n' hn => ?_) h
  change isAttribute n = true ↔ isAttribute n' = true
  rw [hkind, hkind, hn.isOfKind_eq]

/-- The value of an attribute is kept if it is a literal or a container. -/
theorem attributeValue_eq_filter (n : Option Node) : attributeValue n =
    n.filter fun n => n.isOfKind "VLiteral" || n.isOfKind "VExpressionContainer" := by
  cases n with
  | none => rfl
  | some n => cases n <;> rfl

/-- The values of attributes are alike if what they are taken from is. -/
theorem rel_attributeValue {n n' : Option Node} (h : Option.Rel Node.Alike n n') :
    Option.Rel Node.Alike (attributeValue n) (attributeValue n') := by
  rw [attributeValue_eq_filter, attributeValue_eq_filter]
  cases h with
  | none => exact .none
  | some hn =>
    rw [Option.filter_some, Option.filter_some, hn.isOfKind_eq, hn.isOfKind_eq]
    split
    · exact .some hn
    · exact .none

/-- What is neither a name nor a split key is no key. -/
theorem attributeKey_of_other {n : Node} (directive : Bool)
    (hname : n.isOfKind "VIdentifier" = false) (hsplit : n.isOfKind "VDirectiveKey" = false) :
    attributeKey directive (some n) = attributeKey directive none := by
  cases n with
  | templateName => exact nomatch hname
  | directiveKey => exact nomatch hsplit
  | _ => rfl

/-- The keys of attributes are alike if what they are taken from is. -/
theorem alike_attributeKey {n n' : Option Node} (directive : Bool)
    (h : Option.Rel Node.Alike n n') :
    (attributeKey directive n).Alike (attributeKey directive n') := by
  cases h with
  | none => exact .refl _
  | @some n n' hn =>
    by_cases hsplit : n.isOfKind "VDirectiveKey" = true
    · rw [attributeKey_some _ hsplit, attributeKey_some _ (hn.isOfKind_eq _ ▸ hsplit)]
      exact hn
    by_cases hname : n.isOfKind "VIdentifier" = true
    · obtain ⟨mark, name, rawName, rfl⟩ := Node.eq_templateName_of_isOfKind hname
      obtain ⟨mark', name', rawName', rfl⟩ :=
        Node.eq_templateName_of_isOfKind (hn.isOfKind_eq _ ▸ hname)
      obtain ⟨-, rfl, -⟩ := Node.templateName.inj hn.outline
      cases directive with
      | false => exact hn
      | true => exact Node.alike_of_held rfl (fun _ => rfl) (.cons hn .nil) rfl
    · have hsplit' := hn.isOfKind_eq "VDirectiveKey" ▸ Bool.eq_false_of_not_eq_true hsplit
      have hname' := hn.isOfKind_eq "VIdentifier" ▸ Bool.eq_false_of_not_eq_true hname
      rw [attributeKey_of_other _ (Bool.eq_false_of_not_eq_true hname)
        (Bool.eq_false_of_not_eq_true hsplit), attributeKey_of_other _ hname' hsplit']
      exact .refl _

/-- The arguments of directives are alike if what they are read from is. -/
theorem CanBecome.keyArgument (h : fields.CanBecome Node.Alike changes fields') :
    Leads (Option.Rel Node.Alike) fields.keyArgument fields'.keyArgument := by
  have hread := h.get? "argument"
  have hnode := h.nodeAt "argument"
  have htext : ∀ s, fields.value "argument" = .str s ↔ fields'.value "argument" = .str s := by
    intro s
    unfold value
    generalize fields.get? "argument" = x at hread
    generalize fields'.get? "argument" = y at hread
    cases hread with
    | none => exact Iff.rfl
    | some hread => exact hread.text s
  unfold Payload.keyArgument
  split
  · rename_i s hs
    rw [(htext s).1 hs]
    exact .pure (.some (.refl _))
  · rename_i hs
    split
    · rename_i s hs'
      exact absurd ((htext s).2 hs') (hs s)
    · exact hnode

/-- A mapping of a known kind stands for nodes that are alike if its parts do. -/
theorem CanBecome.knownNode {kind : String}
    (h : fields.CanBecome Node.Alike (ingests kind) fields') :
    Leads (Option.Rel Node.Alike) (fields.knownNode kind) (fields'.knownNode kind) := by
  have hrefl (x : Except Failure (Option Node)) : Leads (Option.Rel Node.Alike) x x := by
    refine .refl (fun n => ?_) x
    cases n with
    | none => exact .none
    | some n => exact .some (.refl n)
  unfold Payload.knownNode
  -- The kinds come in the order of the rules; a field that is no part of the node is the same.
  split
  · refine (h.nodeAt _).bind fun template template' htemplate =>
      (h.nodesAt _).bind fun body body' hbody => .pure (.some ?_)
    have htemplate := rel_filter_isOfKind "VElement" htemplate
    rw [← filter_isOfKind_element, ← filter_isOfKind_element] at htemplate
    exact Node.alike_program hbody htemplate
  · rw [h.text_eq _ (by decide)]
    exact hrefl _
  · rw [h.value_eq _ (by decide), h.stringOr_eq _ (by decide)]
    exact hrefl _
  · rw [h.flag_eq _ (by decide)]
    exact (h.expectedNode _).bind fun callee callee' hcallee =>
      (h.nodesAt _).bind fun arguments arguments' harguments =>
        .pure (.some (Node.alike_call hcallee harguments))
  · rw [h.flag_eq "computed" (by decide), h.flag_eq "optional" (by decide)]
    exact (h.expectedNode _).bind fun object object' hobject =>
      (h.expectedNode _).bind fun property property' hproperty =>
        .pure (.some (Node.alike_member hobject hproperty))
  · simp only [h.text_eq "name" (by decide), h.stringOr_eq "rawName" (by decide)]
    exact hrefl _
  · have hname : fields.keyName = fields'.keyName := by
      rw [keyName, keyName, h.nodeAt_eq _ (by decide), h.value_eq _ (by decide)]
    rw [h.nodesAt_eq _ (by decide), hname]
    refine (Leads.of_eq rfl).bind fun modifiers modifiers' hmodifiers =>
      h.keyArgument.bind fun argument argument' hargument =>
        (Leads.of_eq rfl).bind fun name name' hname => .pure (.some ?_)
    rw [hmodifiers, hname]
    exact Node.alike_directiveKey hargument
  · rw [h.text_eq _ (by decide)]
    exact hrefl _
  · exact (h.nodeAt _).bind fun expression expression' hexpression =>
      .pure (.some (Node.alike_container hexpression))
  · rw [h.flag_eq _ (by decide)]
    refine (h.nodeAt _).bind fun key key' hkey =>
      (h.nodeAt _).bind fun value value' hvalue => .pure (.some ?_)
    have hkey := alike_attributeKey (fields'.flag "directive") hkey
    exact Node.alike_tagAttribute hkey.outline (hkey.keys none) (rel_attributeValue hvalue)
  · rw [h.flag_eq _ (by decide)]
    exact (h.nodesAt _).bind fun attributes attributes' hattributes =>
      .pure (.some (Node.alike_startTag (forall₂_filter_isAttribute hattributes)))
  · exact hrefl _
  · rw [h.text_eq _ (by decide)]
    exact hrefl _
  · simp only [h.text_eq "name" (by decide), h.stringOr_eq "rawName" (by decide)]
    refine (Leads.of_eq rfl).bind fun name name' hname => ?_
    refine (h.nodeAt _).bind fun tag tag' htag => (h.nodeAt _).bind fun closing closing' hclosing =>
      (h.nodesAt _).bind fun children children' hchildren => .pure (.some ?_)
    have hclosing := rel_filter_isOfKind "VEndTag" hclosing
    rw [← filter_isOfKind_endTag, ← filter_isOfKind_endTag] at hclosing
    have htag := alike_getD (.startTag {} [] false) (rel_filter_isOfKind "VStartTag" htag)
    rw [← filter_isOfKind_startTag, ← filter_isOfKind_startTag] at htag
    rw [hname]
    exact Node.alike_element htag hchildren hclosing
  · exact hrefl _

/-- A mapping stands for nodes that are alike if its parts do. -/
theorem CanBecome.build {kind : String} (hkind : fields.kind = .ok kind)
    (h : fields.CanBecome Node.Alike (ingests kind) fields') :
    Leads Node.Alike fields.build fields'.build := by
  have hkind' : fields'.kind = .ok kind := by
    rw [← hkind, Payload.kind, Payload.kind, h.get?_eq (ingests_type kind)]
  unfold Payload.build
  rw [hkind, hkind']
  refine h.knownNode.bind fun found found' hfound => ?_
  cases hfound with
  | some hn => exact .pure (hn.withSpan _ _)
  | none => exact h.typedNodes.bind fun _ _ hns => .pure (Node.alike_generic hns)

end Payload

end TranslationKeys
