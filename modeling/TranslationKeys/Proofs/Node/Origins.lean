import TranslationKeys.Proofs.Node.ReadCalls
import TranslationKeys.Proofs.Script.Calls

/-!
# Where the nodes of a tree come from

A node that was read holds nodes that come from mappings one step down, apart from the placeholders
and names that reading makes up. Reading therefore invents no call: every call in a finished tree
comes from a mapping that is reached from the root.
-/

namespace TranslationKeys

/-- A value that is read as a node is a typed mapping that stands for it. -/
theorem Reading.exists_of_node {v : Value} {x : Except Failure Node}
    (h : (Reading.ofValue v).node = some x) :
    ∃ child kind, v = .map child ∧ Mapping.IsTyped child kind ∧ x = Node.ofEntries child := by
  cases v with
  | map child =>
    rw [Reading.ofValue] at h
    simp only at h
    split at h
    · rename_i htyped
      unfold Payload.isTyped Payload.value at htyped
      rw [Payload.get?_ofEntries] at htyped
      cases hfield : Value.lookup? "type" child with
      | none => rw [hfield] at htyped; exact nomatch htyped
      | some type =>
        rw [hfield] at htyped
        simp only [Option.map_some, Option.elim_some, Reading.value_ofValue] at htyped
        cases type with
        | str kind => exact ⟨child, kind, rfl, hfield, (Option.some.inj h).symm⟩
        | _ => exact nomatch htyped
    · exact nomatch h
  | list | tuple => rw [Reading.ofValue] at h; exact nomatch h
  | _ => exact nomatch h

/-- The name of a directive is read as a name of a template. -/
theorem Payload.exists_of_keyName {fields : Payload} {n : Node} (h : fields.keyName = .ok n) :
    ∃ mark name rawName, n = .templateName mark name rawName := by
  obtain ⟨found, -, h⟩ := bind_eq_ok_iff.1 h
  split at h
  · exact ⟨_, _, _, (Except.ok.inj h).symm⟩
  · exact ⟨_, _, _, (Except.ok.inj h).symm⟩
  · obtain ⟨name, -, h⟩ := bind_eq_ok_iff.1 h
    exact ⟨_, _, _, (Except.ok.inj h).symm⟩

namespace Mapping

variable {m child : Mapping} {key kind name : String} {n c : Node}

/-- The node in a field comes from a typed mapping that the field holds. -/
theorem exists_holdsAt_of_nodeAt (h : (Payload.ofEntries m).nodeAt key = .ok (some c)) :
    ∃ child kind, m.HoldsAt key child kind ∧ Node.ofEntries child = .ok c := by
  unfold Payload.nodeAt at h
  rw [Payload.get?_ofEntries] at h
  split at h
  · rename_i x hx
    obtain ⟨r, hr, hnode⟩ := Option.bind_eq_some_iff.1 hx
    obtain ⟨v, hv, rfl⟩ := Option.map_eq_some_iff.1 hr
    obtain ⟨child, kind, rfl, htyped, rfl⟩ := Reading.exists_of_node hnode
    obtain ⟨found, hfound, heq⟩ := bind_eq_ok_iff.1 h
    obtain rfl := Option.some.inj (Except.ok.inj heq)
    exact ⟨child, kind, ⟨hv, htyped⟩, hfound⟩
  · exact nomatch Except.ok.inj h

/-- The node in a field, unless it is a placeholder, comes from a typed mapping in the field. -/
theorem exists_holdsAt_of_expectedNode (h : (Payload.ofEntries m).expectedNode key = .ok c) :
    c = .generic {} "Unknown" [] ∨
      ∃ child kind, m.HoldsAt key child kind ∧ Node.ofEntries child = .ok c := by
  obtain ⟨found, hfound, heq⟩ := bind_eq_ok_iff.1 h
  cases found with
  | none => exact .inl (Except.ok.inj heq).symm
  | some k =>
    obtain rfl : k = c := Except.ok.inj heq
    exact .inr (exists_holdsAt_of_nodeAt hfound)

/-- A typed mapping in a field is read if the node in the field is. -/
theorem HoldsAt.ofEntries_eq (h : m.HoldsAt key child kind)
    (hc : (Payload.ofEntries m).expectedNode key = .ok c) : Node.ofEntries child = .ok c := by
  rw [Payload.expectedNode, Payload.nodeAt, Payload.get?_ofEntries, h.1, Option.map_some,
    Option.bind_some, h.2.node_ofValue] at hc
  cases hread : Node.ofEntries child with
  | error e => rw [hread] at hc; cases hc
  | ok k => rw [hread] at hc; exact hc

/-- The nodes of a sequence come from typed mappings among its items. -/
theorem exists_of_mem_collect {items : List Value} {ns : List Node}
    (h : Reading.collect (items.map Reading.ofValue) = .ok ns) (hc : c ∈ ns) :
    ∃ (child : Mapping) (kind : String), .map child ∈ items ∧ child.IsTyped kind ∧
      Node.ofEntries child = .ok c := by
  obtain ⟨x, hx, heq⟩ := exists_mem_left_of_forall₂ (mapM_eq_ok_iff.1 h) hc
  obtain ⟨r, hr, hnode⟩ := List.mem_filterMap.1 hx
  obtain ⟨v, hv, rfl⟩ := List.mem_map.1 hr
  obtain ⟨child, kind, rfl, htyped, rfl⟩ := Reading.exists_of_node hnode
  exact ⟨child, kind, hv, htyped, heq⟩

/-- The nodes of a value come from typed mappings among its items. -/
theorem exists_of_mem_nodes {v : Value} {ns : List Node} (h : (Reading.ofValue v).nodes = .ok ns)
    (hc : c ∈ ns) : ∃ (items : List Value) (child : Mapping) (kind : String),
      v.sequenceItems? = some items ∧ .map child ∈ items ∧ child.IsTyped kind ∧
        Node.ofEntries child = .ok c := by
  have hnone (hnil : (Reading.ofValue v).nodes = .ok []) : False := by
    rw [hnil] at h
    obtain rfl := Except.ok.inj h
    exact nomatch hc
  cases v with
  | list items | tuple items =>
    rw [(Reading.nodes_ofValue rfl).2] at h
    obtain ⟨child, kind, hmem, htyped, hread⟩ := exists_of_mem_collect h hc
    exact ⟨items, child, kind, rfl, hmem, htyped, hread⟩
  | map => exact (hnone (by rw [Reading.ofValue])).elim
  | _ => exact (hnone rfl).elim

/-- The nodes in a field come from typed mappings that the field lists. -/
theorem exists_listsAt_of_mem_nodesAt {ns : List Node}
    (h : (Payload.ofEntries m).nodesAt key = .ok ns) (hc : c ∈ ns) :
    ∃ child kind, m.ListsAt key child kind ∧ Node.ofEntries child = .ok c := by
  unfold Payload.nodesAt at h
  rw [Payload.get?_ofEntries] at h
  cases hfield : Value.lookup? key m with
  | none =>
    rw [hfield] at h
    obtain rfl := Except.ok.inj h
    exact nomatch hc
  | some v =>
    rw [hfield] at h
    obtain ⟨items, child, kind, hitems, hmem, htyped, hread⟩ := exists_of_mem_nodes h hc
    exact ⟨child, kind, ⟨v, items, hfield, hitems, hmem, htyped⟩, hread⟩

/-- A typed mapping that stands for a node of a special kind is typed by that kind. -/
theorem IsTyped.eq_of_isOfKind (h : child.IsTyped kind) (hc : Node.ofEntries child = .ok c)
    {special : String} (hof : c.isOfKind special = true) : kind = special := by
  have hkind := (Payload.kind_ofEntries child).trans h.kind_eq
  have hbuilds := builds_ofEntries hc
  cases hbuilds with
  | generic => exact nomatch hof
  | program hkind' | identifier hkind' | literal hkind' | call hkind' | member hkind'
  | templateName hkind' | directiveKey hkind' | templateLiteral hkind' | container hkind'
  | tagAttribute hkind' | startTag hkind' | endTag hkind' | templateText hkind'
  | element hkind' =>
    obtain rfl := Except.ok.inj (hkind.symm.trans hkind')
    exact eq_of_beq hof

/-- The nodes of an unknown kind come from typed mappings in fields that are not skipped. -/
theorem exists_enters_of_mem_typedNodes {ns : List Node} (hkind : m.kind = .ok kind)
    (hunknown : kind ∉ Payload.knownKinds) (h : (Payload.ofEntries m).typedNodes = .ok ns)
    (hc : c ∈ ns) : ∃ child, m.Enters child ∧ Node.ofEntries child = .ok c := by
  obtain ⟨found, hfound, heq⟩ := bind_eq_ok_iff.1 h
  obtain rfl := Except.ok.inj heq
  obtain ⟨part, hpart, hc⟩ := List.mem_flatten.1 hc
  obtain ⟨entry, hentry, hread⟩ := exists_mem_left_of_forall₂ (mapM_eq_ok_iff.1 hfound) hpart
  obtain ⟨hentry, hskipped⟩ := List.mem_filter.1 hentry
  rw [Payload.ofEntries_eq_map] at hentry
  obtain ⟨⟨key, v⟩, hmem, rfl⟩ := List.mem_map.1 hentry
  have hkey : key ∉ Payload.metadataFields.map Value.str := by
    intro hmeta
    obtain ⟨field, hfield, rfl⟩ := List.mem_map.1 hmeta
    simp [Payload.isSkipped, hfield] at hskipped
  simp only at hread
  split at hread
  · rename_i x hx
    obtain ⟨child, childKind, rfl, htyped, rfl⟩ := Reading.exists_of_node hx
    obtain ⟨k, hk, heq⟩ := bind_eq_ok_iff.1 hread
    obtain rfl := Except.ok.inj heq
    obtain rfl := List.mem_singleton.1 hc
    exact ⟨child, .unknownField hkind hunknown hkey hmem htyped, hk⟩
  · obtain ⟨items, child, childKind, hitems, hitem, htyped, hk⟩ := exists_of_mem_nodes hread hc
    exact ⟨child, .unknownItem hkind hunknown hkey hmem hitems hitem htyped, hk⟩

/-- The key of an attribute is a split key that was read, or has no calls. -/
theorem attributeKey_cases (directive : Bool) (key : Option Node) :
    (Payload.attributeKey directive key).Throughout (Node.isCall · = false) ∨
      key = some (Payload.attributeKey directive key) ∧
        (Payload.attributeKey directive key).isOfKind "VDirectiveKey" = true := by
  have hname (mark : Mark Node) (name rawName : String) :
      (Node.templateName mark name rawName).Throughout (Node.isCall · = false) :=
    Node.throughout_iff.2 ⟨rfl, by simp [Node.held]⟩
  have hsplit (mark nameMark : Mark Node) (name rawName : String) :
      (Node.directiveKey mark (.templateName nameMark name rawName) none []).Throughout
        (Node.isCall · = false) :=
    Node.throughout_iff.2 ⟨rfl, by simpa [Node.held] using hname nameMark name rawName⟩
  cases key with
  | none => cases directive <;> exact .inl (by first | exact hname _ _ _ | exact hsplit _ _ _ _)
  | some key =>
    cases key with
    | directiveKey => cases directive <;> exact .inr ⟨rfl, rfl⟩
    | _ => cases directive <;> exact .inl (by first | exact hname _ _ _ | exact hsplit _ _ _ _)

/-- What a node that was read holds comes from a mapping one step down, or has no calls. -/
theorem exists_enters_of_mem_held (hn : Node.ofEntries m = .ok n) (hc : c ∈ n.held) :
    c.Throughout (Node.isCall · = false) ∨
      ∃ child, m.Enters child ∧ Node.ofEntries child = .ok c := by
  have hleaf {k : Node} (hcall : k.isCall = false) (hheld : k.held = []) :
      k.Throughout (Node.isCall · = false) :=
    Node.throughout_iff.2 ⟨hcall, by simp [hheld]⟩
  have hplaceholder : (Node.generic {} "Unknown" []).Throughout (Node.isCall · = false) :=
    hleaf rfl rfl
  have hbuilds := builds_ofEntries hn
  have hkindOf {kind : String} (hkind : (Payload.ofEntries m).kind = .ok kind) :
      m.kind = .ok kind :=
    (Payload.kind_ofEntries m).symm.trans hkind
  cases hbuilds with
  | identifier | literal | templateName | templateLiteral | endTag | templateText =>
    exact nomatch hc
  | program hkind _ hbody =>
    obtain ⟨child, kind, hlists, hread⟩ := exists_listsAt_of_mem_nodesAt hbody hc
    exact .inr ⟨child, .body (hkindOf hkind) hlists, hread⟩
  | call hkind hcallee harguments =>
    rcases List.mem_cons.1 hc with rfl | hc
    · obtain rfl | ⟨child, kind, hholds, hread⟩ := exists_holdsAt_of_expectedNode hcallee
      · exact .inl hplaceholder
      · exact .inr ⟨child, .callee (hkindOf hkind) hholds, hread⟩
    · obtain ⟨child, kind, hlists, hread⟩ := exists_listsAt_of_mem_nodesAt harguments hc
      exact .inr ⟨child, .argument (hkindOf hkind) hlists, hread⟩
  | member hkind hobject hproperty =>
    rcases List.mem_cons.1 hc with rfl | hc
    · obtain rfl | ⟨child, kind, hholds, hread⟩ := exists_holdsAt_of_expectedNode hobject
      · exact .inl hplaceholder
      · exact .inr ⟨child, .object (hkindOf hkind) hholds, hread⟩
    · obtain rfl := List.mem_singleton.1 hc
      obtain rfl | ⟨child, kind, hholds, hread⟩ := exists_holdsAt_of_expectedNode hproperty
      · exact .inl hplaceholder
      · exact .inr ⟨child, .property (hkindOf hkind) hholds, hread⟩
  | @directiveKey name argument modifiers hkind hname hargument hmodifiers =>
    rcases List.mem_cons.1 hc with rfl | hc
    · obtain ⟨_, _, _, rfl⟩ := Payload.exists_of_keyName hname
      exact .inl (hleaf rfl rfl)
    · rcases List.mem_append.1 hc with hc | hc
      · obtain rfl := Option.mem_toList.1 hc
        unfold Payload.keyArgument at hargument
        split at hargument
        · obtain rfl := Option.some.inj (Except.ok.inj hargument)
          exact .inl (hleaf rfl rfl)
        · obtain ⟨child, kind, hholds, hread⟩ := exists_holdsAt_of_nodeAt hargument
          exact .inr ⟨child, .keyArgument (hkindOf hkind) hholds, hread⟩
      · obtain ⟨-, hmodifier⟩ := List.mem_filter.1 hc
        cases c with
        | templateName => exact .inl (hleaf rfl rfl)
        | _ => exact nomatch hmodifier
  | container hkind hexpression =>
    obtain rfl := Option.mem_toList.1 hc
    obtain ⟨child, kind, hholds, hread⟩ := exists_holdsAt_of_nodeAt hexpression
    exact .inr ⟨child, .expression (hkindOf hkind) hholds, hread⟩
  | @tagAttribute key value hkind hkey hvalue =>
    rcases List.mem_cons.1 hc with rfl | hc
    · refine (attributeKey_cases _ key).imp_right fun ⟨heq, hof⟩ => ?_
      rw [heq] at hkey
      obtain ⟨child, kind, hholds, hread⟩ := exists_holdsAt_of_nodeAt hkey
      obtain rfl := hholds.2.eq_of_isOfKind hread hof
      exact ⟨child, .attributeKey (hkindOf hkind) hholds, hread⟩
    · unfold Payload.attributeValue at hc
      split at hc
      · obtain rfl := List.mem_singleton.1 hc
        exact .inl (hleaf rfl rfl)
      · obtain rfl := List.mem_singleton.1 hc
        obtain ⟨child, kind, hholds, hread⟩ := exists_holdsAt_of_nodeAt hvalue
        obtain rfl : kind = "VExpressionContainer" := hholds.2.eq_of_isOfKind hread rfl
        exact .inr ⟨child, .attributeValue (hkindOf hkind) hholds, hread⟩
      · exact nomatch hc
  | startTag hkind hattributes =>
    obtain ⟨hc, hattribute⟩ := List.mem_filter.1 hc
    obtain ⟨child, kind, hlists, hread⟩ := exists_listsAt_of_mem_nodesAt hattributes hc
    have hof : c.isOfKind "VAttribute" = true := by
      cases c with
      | tagAttribute => rfl
      | _ => exact nomatch hattribute
    have htyped : child.IsTyped kind := by
      obtain ⟨_, _, _, _, _, htyped⟩ := hlists
      exact htyped
    obtain rfl := htyped.eq_of_isOfKind hread hof
    exact .inr ⟨child, .tagAttribute (hkindOf hkind) hlists, hread⟩
  | @element name tag closing children hkind hname htag hclosing hchildren =>
    rcases List.mem_cons.1 hc with rfl | hc
    · cases hfound : tag.filter (Node.isOfKind "VStartTag") with
      | none => exact .inl (hleaf rfl rfl)
      | some found =>
        obtain ⟨rfl, hof⟩ := Option.filter_eq_some_iff.1 hfound
        obtain ⟨child, kind, hholds, hread⟩ := exists_holdsAt_of_nodeAt htag
        obtain rfl := hholds.2.eq_of_isOfKind hread hof
        exact .inr ⟨child, .startTag (hkindOf hkind) hholds, hread⟩
    · rcases List.mem_append.1 hc with hc | hc
      · obtain ⟨child, kind, hlists, hread⟩ := exists_listsAt_of_mem_nodesAt hchildren hc
        exact .inr ⟨child, .content (hkindOf hkind) hlists, hread⟩
      · obtain ⟨-, hof⟩ := Option.filter_eq_some_iff.1 (Option.mem_toList.1 hc)
        cases c with
        | endTag => exact .inl (hleaf rfl rfl)
        | _ => exact nomatch hof
  | generic hkind hunknown hchildren =>
    exact .inr (exists_enters_of_mem_typedNodes (hkindOf hkind) hunknown hchildren hc)

/-- A call below a node that was read comes from a mapping that is reached step by step. -/
theorem exists_steps_of_mem_inOrder (hn : Node.ofEntries m = .ok n)
    (hc : c ∈ n.inOrder VisitorKeys.default) (hcall : c.isCall = true) :
    ∃ child, Relation.ReflTransGen Enters m child ∧ Node.ofEntries child = .ok c := by
  induction hsize : sizeOf n using Nat.strongRecOn generalizing m n with
  | _ size ih =>
    rw [Node.inOrder_eq, List.mem_cons] at hc
    rcases hc with rfl | hc
    · exact ⟨m, .refl, hn⟩
    · obtain ⟨k, hk, hc⟩ := List.mem_flatMap.1 hc
      have hlt := hsize ▸ Node.sizeOf_lt_of_mem_heldNodes hk
      rw [Node.heldNodes_default] at hk
      obtain hnone | ⟨child, hstep, hread⟩ := exists_enters_of_mem_held hn hk
      · exact absurd hcall (by rw [hnone c hc]; decide)
      · obtain ⟨found, hsteps, hfound⟩ := ih (sizeOf k) hlt hread hc rfl
        exact ⟨found, .head hstep hsteps, hfound⟩

/-- Every place of a finished tree is that of the tree itself or of a node below it, relinked. -/
theorem node_of_mem_preorder {p : Place}
    (h : p ∈ (Place.root n.linked).preorder VisitorKeys.default) :
    p.node = n.linked ∨ ∃ c ∈ n.inOrder VisitorKeys.default, p.node = c.relinked := by
  have hnode := List.mem_map_of_mem (f := Place.node) h
  rw [Place.map_node_preorder VisitorKeys.onlyDown_default, Place.root, Node.inOrder_eq,
    Node.heldNodes_default, Node.held_linked, List.flatMap_map, List.mem_cons] at hnode
  refine hnode.imp_right fun hbelow => ?_
  obtain ⟨m, hm, hnode⟩ := List.mem_flatMap.1 hbelow
  rw [Node.inOrder_relinked] at hnode
  obtain ⟨c, hc, heq⟩ := List.mem_map.1 hnode
  rw [← Node.heldNodes_default] at hm
  exact ⟨c, Node.mem_inOrder_of_mem_heldNodes hm hc, heq.symm⟩

/-- Every place of the template of a finished tree is that of a node of the template, relinked. -/
theorem node_of_mem_templatePlaces {p : Place} (h : p ∈ n.linked.templatePlaces) :
    ∃ mark body template, n = .program mark body (some template) ∧
      ∃ c ∈ template.inOrder VisitorKeys.default, p.node = c.relinked := by
  cases n with
  | program mark body template =>
    cases template with
    | none => exact absurd h List.not_mem_nil
    | some template =>
      have hplace : p ∈ ((Place.root (Node.program mark body (some template)).linked).down
          template.relinked).preorder VisitorKeys.default := h
      have hnode := List.mem_map_of_mem (f := Place.node) hplace
      rw [Place.map_node_preorder VisitorKeys.onlyDown_default, Place.down,
        Node.inOrder_relinked] at hnode
      obtain ⟨c, hc, heq⟩ := List.mem_map.1 hnode
      exact ⟨mark, body, template, rfl, c, hc, heq.symm⟩
  | _ => exact absurd h List.not_mem_nil

/-- Reading invents no call: every call that is met in a finished tree, in its template or in its
script, comes from a mapping that is reached from the root. -/
theorem exists_reaches_of_isCall {root : Mapping} (hn : Node.ofEntries root = .ok n) {p : Place}
    (hp : p ∈ n.linked.templatePlaces ++ (Place.root n.linked).preorder VisitorKeys.default)
    (hcall : p.node.isCall = true) :
    ∃ m c, root.Reaches m ∧ Node.ofEntries m = .ok c ∧ c.isCall = true ∧
      (p.node = c.linked ∨ p.node = c.relinked) := by
  rcases List.mem_append.1 hp with hp | hp
  · obtain ⟨mark, body, template, rfl, c, hc, heq⟩ := node_of_mem_templatePlaces hp
    rw [heq, Node.isCall_relinked] at hcall
    have hbuilds := builds_ofEntries hn
    generalize hprogram : Node.program mark body (some template) = program at hbuilds
    cases hbuilds with
    | @program found _ hkind htemplate _ =>
      obtain ⟨-, -, hfound⟩ := Node.program.inj hprogram
      obtain ⟨rfl, hof⟩ := Option.filter_eq_some_iff.1 hfound.symm
      obtain ⟨child, kind, hholds, hread⟩ := exists_holdsAt_of_nodeAt htemplate
      obtain rfl := hholds.2.eq_of_isOfKind hread hof
      obtain ⟨m, hsteps, hm⟩ := exists_steps_of_mem_inOrder hread hc hcall
      exact ⟨m, c, .template ((Payload.kind_ofEntries root).symm.trans hkind) hholds hsteps, hm,
        hcall, .inr heq⟩
    | _ => exact nomatch hprogram
  · obtain heq | ⟨c, hc, heq⟩ := node_of_mem_preorder hp
    · have hroot : n.isCall = true := by
        rw [heq] at hcall
        cases n with
        | call => rfl
        | program _ _ template => cases template <;> exact nomatch hcall
        | _ => exact nomatch hcall
      exact ⟨root, n, .script .refl, hn, hroot, .inl heq⟩
    · rw [heq, Node.isCall_relinked] at hcall
      obtain ⟨m, hsteps, hm⟩ := exists_steps_of_mem_inOrder hn hc hcall
      exact ⟨m, c, .script hsteps, hm, hcall, .inr heq⟩

end Mapping

end TranslationKeys
