import TranslationKeys.Proofs.Node.Extraction
import TranslationKeys.Proofs.Node.Linking
import TranslationKeys.Proofs.Node.Reading

/-!
# Trees read from plain values are well typed

Whatever a mapping holds, the tree that is read from it has nodes of the declared kinds in all of
its fields: what is wrongly shaped is dropped or replaced on the way. Linking the tree changes no
kind, and from such a tree keys are extracted without a failure.
-/

namespace TranslationKeys

namespace Node

/-- The key of a directive is split into its parts. -/
def SplitsDirective : Node → Prop
  | tagAttribute _ true key _ => key.isOfKind "VDirectiveKey" = true
  | _ => True

/-- An attribute splits its key if it is a directive. -/
theorem splitsDirective_tagAttribute {mark : Mark Node} {directive : Bool} {key : Node}
    {value : Option Node} :
    (tagAttribute mark directive key value).SplitsDirective ↔
      (directive = true → key.isOfKind "VDirectiveKey" = true) := by
  cases directive <;> simp [SplitsDirective]

/-- A node whose fields hold the declared kinds, with a split key if it is a directive. -/
structure IsWellTyped (n : Node) : Prop where
  /-- The fields hold the declared kinds. -/
  fits : n.FieldsFit
  /-- The key of a directive is split. -/
  splits : n.SplitsDirective

/-- A name in a template is well typed. -/
theorem everywhere_templateName (mark : Mark Node) (name rawName : String) :
    (templateName mark name rawName).Everywhere IsWellTyped :=
  everywhere_of_fields_eq_nil ⟨trivial, trivial⟩ rfl

end Node

namespace Payload

open Node (Everywhere IsWellTyped isOfKind)

/-- What is kept of an optional node by its kind is of the kind. -/
theorem isOfKind_of_mem_filter {kind : String} {n : Option Node} {m : Node}
    (h : m ∈ n.filter (isOfKind kind)) : m ∈ n ∧ m.isOfKind kind = true :=
  Option.mem_filter_iff.1 h

/-- Names in a template are of the kind of names. -/
theorem isOfKind_of_isTemplateName {n : Node} (h : isTemplateName n = true) :
    n.isOfKind "VIdentifier" = true := by
  cases n <;> simp [isTemplateName, isOfKind, Node.isGeneric, Node.tag] at h ⊢

/-- Attributes are of the kind of attributes. -/
theorem isOfKind_of_isAttribute {n : Node} (h : isAttribute n = true) :
    n.isOfKind "VAttribute" = true := by
  cases n <;> simp [isAttribute, isOfKind, Node.isGeneric, Node.tag] at h ⊢

/-- The key of an attribute is well typed. It is a name or a split key, and it is split if the
attribute is a directive. -/
theorem attributeKey_isWellTyped (directive : Bool) {key : Option Node}
    (hkey : ∀ n ∈ key, n.Everywhere IsWellTyped) :
    (attributeKey directive key).Everywhere IsWellTyped ∧
      ((attributeKey directive key).isOfKind "VIdentifier" = true ∨
        (attributeKey directive key).isOfKind "VDirectiveKey" = true) ∧
      (directive = true → (attributeKey directive key).isOfKind "VDirectiveKey" = true) := by
  unfold attributeKey
  extract_lets name
  have hname : name.Everywhere IsWellTyped ∧
      (isTemplateName name = true ∨ name.isOfKind "VDirectiveKey" = true) := by
    subst name
    split
    · exact ⟨hkey _ rfl, .inl rfl⟩
    · exact ⟨hkey _ rfl, .inr rfl⟩
    · exact ⟨Node.everywhere_templateName _ _ _, .inl rfl⟩
  split
  · rename_i hsplit
    obtain ⟨-, hkind⟩ := Bool.and_eq_true_iff.1 hsplit
    refine ⟨.intro ⟨⟨isOfKind_of_isTemplateName hkind, by simp⟩, trivial⟩ ?_, .inr rfl,
      fun _ => rfl⟩
    simp only [Node.fields, List.forall_mem_cons]
    exact ⟨⟨hname.1, by simp⟩, by simp⟩
  · rename_i hsplit
    refine ⟨hname.1, hname.2.imp_left isOfKind_of_isTemplateName, fun hdirective => ?_⟩
    exact hname.2.resolve_left fun hkind => hsplit (by simp [hdirective, hkind])

/-- The value of an attribute is well typed, and is a literal or a container. -/
theorem attributeValue_isWellTyped {value : Option Node}
    (hvalue : ∀ n ∈ value, n.Everywhere IsWellTyped) :
    ∀ n ∈ attributeValue value, n.Everywhere IsWellTyped ∧
      (n.isOfKind "VLiteral" = true ∨ n.isOfKind "VExpressionContainer" = true) := by
  intro n hn
  unfold attributeValue at hn
  split at hn
  · obtain rfl := Option.some.inj hn
    exact ⟨hvalue _ rfl, .inl rfl⟩
  · obtain rfl := Option.some.inj hn
    exact ⟨hvalue _ rfl, .inr rfl⟩
  · exact nomatch hn

/-- The opening tag of an element, or the one that takes its place, is well typed. -/
theorem startTag_isWellTyped {tag : Option Node} (htag : ∀ n ∈ tag, n.Everywhere IsWellTyped) :
    ((tag.filter (isOfKind "VStartTag")).getD (.startTag {} [] false)).Everywhere IsWellTyped ∧
      ((tag.filter (isOfKind "VStartTag")).getD (.startTag {} [] false)).isOfKind
        "VStartTag" = true := by
  cases hkept : tag.filter (isOfKind "VStartTag") with
  | none => exact ⟨.intro ⟨by simp [Node.FieldsFit], trivial⟩ (by simp [Node.fields]), rfl⟩
  | some t =>
    obtain ⟨hmem, hkind⟩ := isOfKind_of_mem_filter hkept
    exact ⟨htag t hmem, hkind⟩

/-- The rules keep trees well typed. -/
theorem keptByRules_isWellTyped : KeptByRules (Everywhere IsWellTyped) := by
  intro fields n hfields hbuilds
  have hplaceholder : (Node.generic {} "Unknown" []).Everywhere IsWellTyped :=
    .intro ⟨trivial, trivial⟩ (by simp [Node.fields])
  cases hbuilds with
  | program hkind htemplate hbody =>
    have htemplate := (hfields.nodeAt _).of_eq_ok htemplate
    have hbody := (hfields.nodesAt _).of_eq_ok hbody
    refine .intro ⟨fun t ht => (isOfKind_of_mem_filter ht).2, trivial⟩ ?_
    simp only [Node.fields, List.forall_mem_cons, Option.mem_toList]
    exact ⟨hbody, fun t ht => htemplate t (isOfKind_of_mem_filter ht).1, by simp⟩
  | identifier | templateName | templateLiteral | endTag | templateText =>
    exact Node.everywhere_of_fields_eq_nil ⟨trivial, trivial⟩ rfl
  | literal hkind hvalue =>
    have hvalue := (scalarOf_yields (hfields.short _)).of_eq_ok hvalue
    exact Node.everywhere_of_fields_eq_nil ⟨hvalue, trivial⟩ rfl
  | call hkind hcallee harguments =>
    have hcallee := (hfields.expectedNode hplaceholder _).of_eq_ok hcallee
    have harguments := (hfields.nodesAt _).of_eq_ok harguments
    refine .intro ⟨trivial, trivial⟩ ?_
    simp only [Node.fields, List.forall_mem_cons]
    exact ⟨⟨hcallee, by simp⟩, harguments, by simp⟩
  | member hkind hobject hproperty =>
    have hobject := (hfields.expectedNode hplaceholder _).of_eq_ok hobject
    have hproperty := (hfields.expectedNode hplaceholder _).of_eq_ok hproperty
    refine .intro ⟨trivial, trivial⟩ ?_
    simp only [Node.fields, List.forall_mem_cons]
    exact ⟨⟨hobject, by simp⟩, ⟨hproperty, by simp⟩, by simp⟩
  | directiveKey hkind hname hargument hmodifiers =>
    have hname := (hfields.keyName Node.everywhere_templateName).of_eq_ok hname
    have hargument := (hfields.keyArgument Node.everywhere_templateName).of_eq_ok hargument
    have hmodifiers := (hfields.nodesAt _).of_eq_ok hmodifiers
    refine .intro ⟨⟨hname.2, fun m hm =>
      isOfKind_of_isTemplateName (List.mem_filter.1 hm).2⟩, trivial⟩ ?_
    simp only [Node.fields, List.forall_mem_cons, Option.mem_toList]
    exact ⟨⟨hname.1, by simp⟩, hargument, fun m hm => hmodifiers m (List.mem_filter.1 hm).1,
      by simp⟩
  | container hkind hexpression =>
    have hexpression := (hfields.nodeAt _).of_eq_ok hexpression
    refine .intro ⟨trivial, trivial⟩ ?_
    simp only [Node.fields, List.forall_mem_cons, Option.mem_toList]
    exact ⟨hexpression, by simp⟩
  | tagAttribute hkind hkey hvalue =>
    have hkey := attributeKey_isWellTyped (fields.flag "directive")
      ((hfields.nodeAt _).of_eq_ok hkey)
    have hvalue := attributeValue_isWellTyped ((hfields.nodeAt _).of_eq_ok hvalue)
    refine .intro ⟨⟨hkey.2.1, fun v hv => (hvalue v hv).2⟩,
      Node.splitsDirective_tagAttribute.2 hkey.2.2⟩ ?_
    simp only [Node.fields, List.forall_mem_cons, Option.mem_toList]
    exact ⟨⟨hkey.1, by simp⟩, fun v hv => (hvalue v hv).1, by simp⟩
  | startTag hkind hattributes =>
    have hattributes := (hfields.nodesAt _).of_eq_ok hattributes
    refine .intro ⟨fun a ha => isOfKind_of_isAttribute (List.mem_filter.1 ha).2, trivial⟩ ?_
    simp only [Node.fields, List.forall_mem_cons]
    exact ⟨fun a ha => hattributes a (List.mem_filter.1 ha).1, by simp⟩
  | @element name tag closing children hkind hname htag hclosing hchildren =>
    have htag := (hfields.nodeAt _).of_eq_ok htag
    have hclosing := (hfields.nodeAt _).of_eq_ok hclosing
    have hchildren := (hfields.nodesAt _).of_eq_ok hchildren
    have hstart := startTag_isWellTyped htag
    refine .intro ⟨⟨hstart.2, fun c hc => (isOfKind_of_mem_filter hc).2⟩, trivial⟩ ?_
    simp only [Node.fields, List.forall_mem_cons, Option.mem_toList]
    exact ⟨⟨hstart.1, by simp⟩, hchildren, fun c hc => hclosing c (isOfKind_of_mem_filter hc).1,
      by simp⟩
  | generic hkind hunknown hchildren =>
    have hchildren := hfields.typedNodes.of_eq_ok hchildren
    refine .intro ⟨trivial, trivial⟩ ?_
    simp only [Node.fields, List.forall_mem_cons]
    exact ⟨hchildren, by simp⟩

end Payload

namespace Node

/-- Held nodes are linked one by one. -/
theorem linkEach_eq_map (keys : VisitorKeys) (entered : Bool) (ns : List Node) :
    linkEach keys entered ns = ns.map fun n => attachedIf entered (n.linkBelow keys) n :=
  eq_map_of_cons rfl (fun _ _ => rfl) ns

/-- An optional held node is linked if it is there. -/
theorem linkMaybe_eq_map (keys : VisitorKeys) (entered : Bool) (n : Option Node) :
    linkMaybe keys entered n = n.map fun n => attachedIf entered (n.linkBelow keys) n := by
  cases n <;> rfl

/-- Linking keeps the fields of a node. What a field holds is linked if the walk enters it. -/
theorem fields_linkBelow (keys : VisitorKeys) (n : Node) :
    (n.linkBelow keys).fields = n.fields.map fun f => (f.1, f.2.map fun m =>
      attachedIf (n.isGeneric || enters keys n.tag f.1) (m.linkBelow keys) m) := by
  cases n <;> simp [linkBelow, fields, isGeneric, tag, linkEach_eq_map, linkMaybe_eq_map,
    Option.toList_map]

/-- Attaching the link of a node keeps its fields. -/
theorem fields_attached (n : Node) : n.attached.fields = n.fields := by
  cases n <;> rfl

/-- Linking keeps the kind of a held node. -/
theorem isOfKind_attachedIf (keys : VisitorKeys) (entered : Bool) (kind : String) (n : Node) :
    (attachedIf entered (n.linkBelow keys) n).isOfKind kind = n.isOfKind kind := by
  cases entered with
  | false => rfl
  | true => cases n <;> rfl

/-- Attaching a link changes nothing everywhere in a tree but at its root. -/
theorem Everywhere.attached {P : Node → Prop} (hattach : ∀ n, P n → P n.attached) {n : Node}
    (h : n.Everywhere P) : n.attached.Everywhere P := by
  cases h with
  | intro here held => exact .intro (hattach n here) (fields_attached n ▸ held)

/-- What linking keeps at a node, it keeps everywhere in a tree. -/
theorem Everywhere.linkBelow {P : Node → Prop} {keys : VisitorKeys}
    (hlink : ∀ n, P n → P (n.linkBelow keys)) (hattach : ∀ n, P n → P n.attached) {n : Node}
    (h : n.Everywhere P) : (n.linkBelow keys).Everywhere P := by
  induction h with
  | @intro n here held ih =>
    refine .intro (hlink n here) ?_
    rw [fields_linkBelow]
    intro entry hentry m hm
    obtain ⟨f, hf, rfl⟩ := List.mem_map.1 hentry
    obtain ⟨k, hk, rfl⟩ := List.mem_map.1 hm
    unfold attachedIf
    split
    · exact (ih f hf k hk).attached hattach
    · exact held f hf k hk

/-- What linking keeps at a node holds everywhere in a finished tree. -/
theorem Everywhere.linked {P : Node → Prop}
    (hlink : ∀ n, P n → P (n.linkBelow VisitorKeys.default)) (hattach : ∀ n, P n → P n.attached)
    (htemplate : ∀ mark body template, P (program mark body (some template)) →
      P (program mark body (some template.relinked)))
    {n : Node} (h : n.Everywhere P) : n.linked.Everywhere P := by
  have hbelow := h.linkBelow hlink hattach
  unfold Node.linked
  split
  · -- A template is linked once more, on its own.
    rename_i mark body template heq
    rw [heq] at hbelow
    cases hbelow with
    | intro here held =>
      refine .intro (htemplate mark body template here) ?_
      simp only [fields, List.forall_mem_cons, Option.mem_toList,
        Option.some.injEq, forall_eq'] at held ⊢
      exact ⟨held.1, (held.2.1.linkBelow hlink hattach).attached hattach, by simp⟩
  · exact hbelow

/-- Linking a node keeps it well typed. -/
theorem IsWellTyped.linkBelow {n : Node} (h : n.IsWellTyped) (keys : VisitorKeys) :
    (n.linkBelow keys).IsWellTyped := by
  obtain ⟨hfits, hsplits⟩ := h
  cases n with
  | directiveKey _ name argument modifiers =>
    refine ⟨?_, trivial⟩
    simpa [Node.linkBelow, FieldsFit, isOfKind_attachedIf, linkEach_eq_map] using hfits
  | tagAttribute _ directive key value =>
    rw [splitsDirective_tagAttribute] at hsplits
    refine ⟨?_, splitsDirective_tagAttribute.2 ?_⟩
    · simpa [Node.linkBelow, FieldsFit, isOfKind_attachedIf, linkMaybe_eq_map] using hfits
    · simpa [isOfKind_attachedIf] using hsplits
  | startTag _ attributes _ =>
    refine ⟨?_, trivial⟩
    simpa [Node.linkBelow, FieldsFit, isOfKind_attachedIf, linkEach_eq_map] using hfits
  | element _ _ _ tag children closing =>
    refine ⟨?_, trivial⟩
    simpa [Node.linkBelow, FieldsFit, isOfKind_attachedIf, linkMaybe_eq_map] using hfits
  | program _ body templateBody =>
    refine ⟨?_, trivial⟩
    simpa [Node.linkBelow, FieldsFit, isOfKind_attachedIf, linkMaybe_eq_map] using hfits
  | _ => exact ⟨hfits, trivial⟩

/-- Attaching the link of a node keeps it well typed. -/
theorem IsWellTyped.attached {n : Node} (h : n.IsWellTyped) : n.attached.IsWellTyped := by
  obtain ⟨hfits, hsplits⟩ := h
  cases n with
  | tagAttribute _ directive _ _ => cases directive <;> exact ⟨hfits, hsplits⟩
  | _ => exact ⟨hfits, trivial⟩

/-- Finishing a tree keeps it well typed. -/
theorem everywhere_isWellTyped_linked {n : Node} (h : n.Everywhere IsWellTyped) :
    n.linked.Everywhere IsWellTyped := by
  refine h.linked (fun n hn => hn.linkBelow _) (fun n hn => hn.attached) ?_
  intro mark body template htyped
  refine ⟨fun t ht => ?_, trivial⟩
  obtain rfl := Option.some.inj ht
  exact (isOfKind_attachedIf _ true _ _).trans (htyped.fits template rfl)

end Node

namespace Place

/-- Every place in a tree of declared kinds can be asked for its key. -/
theorem key?_yields {p : Place} (h : p.node.Everywhere Node.FieldsFit) :
    Yields (fun _ => True) p.key? := by
  obtain ⟨node, above⟩ := p
  have hfield (key : String) {m : Node} (hm : m ∈ node.field key) : m.Everywhere Node.FieldsFit :=
    h.of_mem_field hm
  have hyields {answer : Except Failure (Option Text)} {holds : Text → Prop}
      (hfinds : Finds answer holds) : Yields (fun _ => True) answer := by
    obtain ⟨found, hfound, -⟩ := hfinds
    exact ⟨found, hfound, trivial⟩
  unfold key?
  cases node with
  | call mark callee arguments optional =>
    have hfinds : Finds (callKey? callee arguments)
        (Contributes ⟨.call mark callee arguments optional, above⟩) := by
      refine callKey?_finds fun argument hargument => (hfield "arguments" ?_).here
      simpa [Node.field, Node.fields, List.lookup_cons] using hargument
    exact hyields hfinds
  | tagAttribute mark directive key value =>
    cases directive with
    | false => exact .pure trivial
    | true =>
      have hfinds : Finds (directiveKey? key value)
          (Contributes ⟨.tagAttribute mark true key value, above⟩) := by
        refine directiveKey?_finds (hfield "key" ?_).here fun container hcontainer =>
          hfield "value" ?_
        · simp [Node.field, Node.fields]
        · simpa [Node.field, Node.fields, List.lookup_cons] using hcontainer
      exact hyields hfinds
  | _ => exact .pure trivial

/-- The keys along a walk that only goes down are those of the places of its pre-order. -/
theorem keysAlong_eq {keys : VisitorKeys} (h : keys.OnlyDown) (p : Place) :
    p.keysAlong keys = do
      let found ← (p.preorder keys).mapM key?
      return found.filterMap id := by
  unfold keysAlong
  rw [Walk.visits?_eq_some h]
  simp only [entered_visits h]

/-- A walk through a tree of declared kinds gives the key of every place that has one. -/
theorem keysAlong_yields {keys : VisitorKeys} (hkeys : keys.OnlyDown) {p : Place}
    (h : p.node.Everywhere Node.FieldsFit) :
    Yields (fun found => ∀ q ∈ p.preorder keys, ∀ key, q.key? = .ok (some key) → key ∈ found)
      (p.keysAlong keys) := by
  have hall : ∀ q ∈ p.preorder keys, q.node.Everywhere Node.FieldsFit :=
    everywhere_of_mem_preorder h
  obtain ⟨found, hfound, -⟩ := Yields.mapM fun q hq => key?_yields (hall q hq)
  rw [keysAlong_eq hkeys, hfound]
  refine .pure fun q hq key hkey => List.mem_filterMap.2 ⟨some key, ?_, rfl⟩
  obtain ⟨f, hf, hqf⟩ := exists_mem_right_of_forall₂ (mapM_eq_ok_iff.1 hfound) hq
  rwa [Except.ok.inj (hkey.symm.trans hqf)]

end Place

namespace Node

/-- From a tree of declared kinds keys are extracted under the default visitor keys without a
failure: all that the places of the template and of the program have. -/
theorem keysUnder_null_yields {n : Node} (h : n.Everywhere FieldsFit) :
    Yields (fun keys => ∀ q ∈ n.templatePlaces ++ (Place.root n).preorder VisitorKeys.default,
      ∀ key, q.key? = .ok (some key) → key ∈ keys) (n.keysUnder .null) := by
  have htemplate : Yields (fun keys => ∀ q ∈ n.templatePlaces,
      ∀ key, q.key? = .ok (some key) → key ∈ keys) n.templateKeys := by
    cases n with
    | program mark body templateBody =>
      cases templateBody with
      | none => exact ⟨[], rfl, by simp [templatePlaces]⟩
      | some template =>
        have hmem : template ∈ (program mark body (some template)).field "template_body" := by
          simp [field, fields, List.lookup_cons]
        exact Place.keysAlong_yields VisitorKeys.onlyDown_default (h.of_mem_field hmem)
    | _ => exact ⟨[], rfl, by simp [templatePlaces]⟩
  have hscript := Place.keysAlong_yields VisitorKeys.onlyDown_default (p := Place.root n) h
  refine htemplate.bind fun fromTemplate hfromTemplate => ?_
  refine hscript.bind fun fromScript hfromScript => .pure fun q hq key hkey => ?_
  rw [mem_firstSeen, List.mem_append]
  rcases List.mem_append.1 hq with hq | hq
  · exact .inl (hfromTemplate q hq key hkey)
  · exact .inr (hfromScript q hq key hkey)

/-- Reading is total and well typed. Whatever a mapping with short integers holds, it stands for a
finished tree, keys are extracted from the tree under the default visitor keys without a failure,
and everywhere in it the fields of a node hold the declared kinds and the key of a directive is
split. -/
theorem exists_ofValue_isWellTyped {entries : List (Value × Value)}
    (h : (Value.map entries).hasShortIntegers = true) :
    ∃ n, ofValue (.map entries) = .ok n ∧ (∃ keys, n.keysUnder .null = .ok keys) ∧
      n.Everywhere IsWellTyped := by
  obtain ⟨n, hn, -, htyped⟩ := ofEntries_yields Payload.keptByRules_isWellTyped h
  have hlinked := everywhere_isWellTyped_linked htyped
  obtain ⟨keys, hkeys, -⟩ := keysUnder_null_yields (hlinked.imp fun _ hn => hn.fits)
  exact ⟨n.linked, by rw [ofValue, hn]; rfl, ⟨keys, hkeys⟩, hlinked⟩

/-- An element whose parts are of the wrong kinds: a tag in place of an attribute, a directive whose
key is a plain name and whose value is a literal of a script, a closing tag that is a number, and an
entry whose key is no string. -/
def misshapenElement : List (Value × Value) :=
  [(.str "type", .str "VElement"),
    (.str "name", .list [.int 1, .null]),
    (.str "startTag", .map [(.str "type", .str "VStartTag"), (.str "attributes", .tuple
      [.map [(.str "type", .str "VStartTag")],
        .map [(.str "type", .str "VAttribute"), (.str "directive", .int 1),
          (.str "key", .map [(.str "type", .str "VIdentifier"), (.str "name", .str "t")]),
          (.str "value", .map [(.str "type", .str "Literal"),
            (.str "value", .map [(.int 2, .bool true)])])]])]),
    (.str "endTag", .int (-40)),
    (.int 3, .str "VElement")]

/-- The misshapen element is read, searched for keys and well typed. -/
theorem exists_ofValue_misshapenElement :
    (Value.map misshapenElement).hasShortIntegers = true ∧
      ∃ n, ofValue (.map misshapenElement) = .ok n ∧ (∃ keys, n.keysUnder .null = .ok keys) ∧
        n.Everywhere IsWellTyped := by
  have hshort : (Value.map misshapenElement).hasShortIntegers = true := by decide +kernel
  exact ⟨hshort, exists_ofValue_isWellTyped hshort⟩

end Node

end TranslationKeys
