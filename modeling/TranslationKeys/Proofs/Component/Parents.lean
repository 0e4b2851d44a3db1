import TranslationKeys.Proofs.Component.Elements
import TranslationKeys.Proofs.Node.Parents
import TranslationKeys.Proofs.Script.Conversion

/-!
# Parents in a component

The program of a component is put together from scripts, expressions and elements, some of them
linked on their own before. In its template an attribute stands in an opening tag and nowhere else,
and an opening tag that has attributes is that of an element. So every attribute of the template is
listed by an element, and since the finished program is linked throughout, the attribute finds the
name of that element.
-/

namespace TranslationKeys

namespace Node

/-- The attributes that a node lists: those of an opening tag. -/
def listed : Node → List Node
  | startTag _ attributes _ => attributes
  | _ => []

/-- The opening tag of an element. -/
def tag? : Node → Option Node
  | element _ _ _ tag _ _ => some tag
  | _ => none

/-- Among the nodes that a node holds, only an opening tag has attributes, and only the opening tag
of an element has a list of them that is not empty. -/
def HoldsAttributesInTags (n : Node) : Prop :=
  ∀ m ∈ n.held, (m.isOfKind "VAttribute" = true → m ∈ n.listed) ∧
    (m.listed ≠ [] → n.tag? = some m)

/-- Linking a node links what it lists. -/
theorem listed_linkBelow (n : Node) :
    (n.linkBelow VisitorKeys.default).listed = n.listed.map relinked := by
  cases n with
  | startTag _ attributes _ => exact linkEach_true attributes
  | _ => rfl

/-- Linking a node links its opening tag. -/
theorem tag?_linkBelow (n : Node) :
    (n.linkBelow VisitorKeys.default).tag? = n.tag?.map relinked := by
  cases n <;> rfl

/-- Relinking a node relinks what it lists. -/
theorem listed_relinked (n : Node) : n.relinked.listed = n.listed.map relinked := by
  rw [← listed_linkBelow]
  cases n <;> rfl

/-- Relinking keeps the kind of a node. -/
theorem isOfKind_relinked (kind : String) (n : Node) :
    n.relinked.isOfKind kind = n.isOfKind kind :=
  isOfKind_attachedIf _ true _ _

/-- Linking keeps attributes in their places. -/
theorem HoldsAttributesInTags.linkBelow {n : Node} (h : n.HoldsAttributesInTags) :
    (n.linkBelow VisitorKeys.default).HoldsAttributesInTags := by
  unfold HoldsAttributesInTags
  rw [held_linkBelow, List.forall_mem_map, listed_linkBelow, tag?_linkBelow]
  intro m hm
  obtain ⟨hattribute, htag⟩ := h m hm
  rw [isOfKind_relinked, listed_relinked]
  constructor
  · intro hkind
    exact List.mem_map_of_mem (hattribute hkind)
  · intro hlisted
    rw [htag fun hnil => hlisted (by rw [hnil, List.map_nil]), Option.map_some]

/-- Attaching the link of a node keeps attributes in their places. -/
theorem HoldsAttributesInTags.attached {n : Node} (h : n.HoldsAttributesInTags) :
    n.attached.HoldsAttributesInTags := by
  cases n <;> exact h

/-- A node that may stand anywhere: it is no attribute and lists none, and the attributes below it
are in their places. -/
structure StandsAnywhere (n : Node) : Prop where
  /-- The attributes below are in their places. -/
  below : n.Throughout HoldsAttributesInTags
  /-- The node is no attribute. -/
  kind : n.isOfKind "VAttribute" = false
  /-- The node lists no attributes. -/
  lists : n.listed = []

/-- A node that may stand anywhere is in its place, whatever holds it. -/
theorem StandsAnywhere.inPlace {n m : Node} (h : m.StandsAnywhere) :
    (m.isOfKind "VAttribute" = true → m ∈ n.listed) ∧ (m.listed ≠ [] → n.tag? = some m) := by
  constructor
  · intro hattribute
    exact absurd hattribute (by rw [h.kind]; decide)
  · intro hlisted
    exact absurd h.lists hlisted

/-- Attributes are in their places throughout a node that holds what may stand anywhere. -/
theorem throughout_of_held {n : Node} (h : ∀ m ∈ n.held, m.StandsAnywhere) :
    n.Throughout HoldsAttributesInTags :=
  throughout_iff.2 ⟨fun m hm => (h m hm).inPlace, fun m hm => (h m hm).below⟩

/-- A node that is no attribute and lists none may stand anywhere if what it holds may. -/
theorem standsAnywhere_of_held {n : Node} (hkind : n.isOfKind "VAttribute" = false)
    (hlists : n.listed = []) (hheld : ∀ m ∈ n.held, m.StandsAnywhere) : n.StandsAnywhere :=
  ⟨throughout_of_held hheld, hkind, hlists⟩

/-- A node that holds nothing may stand anywhere. -/
theorem standsAnywhere_of_held_eq_nil {n : Node} (h : n.held = []) : n.StandsAnywhere := by
  refine standsAnywhere_of_held ?_ ?_ (by simp [h])
  · cases n with
    | tagAttribute => exact nomatch h
    | _ => rfl
  · cases n with
    | startTag => exact h
    | _ => rfl

/-- A generic node may stand anywhere if its children may. -/
theorem standsAnywhere_generic {mark : Mark Node} {tag : String} {children : List Node}
    (h : ∀ m ∈ children, m.StandsAnywhere) : (generic mark tag children).StandsAnywhere :=
  standsAnywhere_of_held rfl rfl h

/-- Linking a node that may stand anywhere leaves it so. -/
theorem StandsAnywhere.linkBelow {n : Node} (h : n.StandsAnywhere) :
    (n.linkBelow VisitorKeys.default).StandsAnywhere where
  below := h.below.linkBelow (fun _ hm => hm.linkBelow) (fun _ hm => hm.attached)
  kind := by
    rw [← h.kind]
    cases n <;> rfl
  lists := by rw [listed_linkBelow, h.lists, List.map_nil]

/-- Relinking a node that may stand anywhere leaves it so. -/
theorem StandsAnywhere.relinked {n : Node} (h : n.StandsAnywhere) : n.relinked.StandsAnywhere where
  below := by
    rw [throughout_iff, Node.relinked, held_attached]
    exact (throughout_iff.1 h.linkBelow.below).imp_left HoldsAttributesInTags.attached
  kind := by rw [isOfKind_relinked, h.kind]
  lists := by rw [listed_relinked, h.lists, List.map_nil]

end Node

namespace Script

variable {source : List UInt8} {offset : Int}

/-- An operand may stand anywhere if what its tree becomes may. -/
theorem standsAnywhere_of_isOperand {child : Option TreeNode} {node : Node}
    (hchild : ∀ n ∈ child, ∀ node, (convert source offset n).node = .ok (some node) →
      node.StandsAnywhere)
    (h : IsOperand source offset child node) : node.StandsAnywhere := by
  cases h with
  | code hnode => exact hchild _ rfl _ hnode
  | missing => exact Node.standsAnywhere_of_held_eq_nil rfl

/-- What a tree node becomes may stand anywhere, and so may what its children become. -/
theorem standsAnywhere_of_convert (n : TreeNode) :
    (∀ node, (convert source offset n).node = .ok (some node) → node.StandsAnywhere) ∧
      ∀ nodes, (convert source offset n).inner = .ok nodes → ∀ node ∈ nodes,
        node.StandsAnywhere := by
  induction n using TreeNode.induction with
  | step n ih =>
    have hinner (nodes : List Node) (h : (convert source offset n).inner = .ok nodes) :
        ∀ node ∈ nodes, node.StandsAnywhere := by
      intro node hnode
      obtain ⟨child, hchild, hconvert⟩ :=
        exists_mem_left_of_forall₂ (inner_convert_eq_ok_iff.1 h) hnode
      exact (ih child (List.mem_of_mem_filter hchild)).1 node hconvert
    refine ⟨fun node hnode => ?_, hinner⟩
    have hfield (name : String) : ∀ child ∈ n.child? name, ∀ node,
        (convert source offset child).node = .ok (some node) → node.StandsAnywhere :=
      fun child hchild => (ih child (TreeNode.mem_children_of_child? hchild)).1
    have hbecomes := becomes_of_node_convert hnode
    cases hbecomes with
    | leaf _ hheld => exact Node.standsAnywhere_of_held_eq_nil hheld
    | call _ harguments hcallee =>
      refine Node.standsAnywhere_of_held rfl rfl ?_
      rw [Node.held, List.forall_mem_cons]
      refine ⟨standsAnywhere_of_isOperand (hfield _) hcallee, ?_⟩
      generalize hchild : n.child? "arguments" = child at harguments
      cases harguments with
      | absent => simp
      | list _ hlist => exact (ih _ (TreeNode.mem_children_of_child? hchild)).2 _ hlist
      | template _ hoperand =>
        rw [← hchild] at hoperand
        simpa using standsAnywhere_of_isOperand (hfield _) hoperand
    | member _ hobject hproperty | subscript _ hobject hproperty =>
      refine Node.standsAnywhere_of_held rfl rfl ?_
      simp only [Node.held, List.forall_mem_cons]
      exact ⟨standsAnywhere_of_isOperand (hfield _) hobject,
        standsAnywhere_of_isOperand (hfield _) hproperty, by simp⟩
    | unwrapped _ h => exact hinner _ h _ (List.mem_singleton.2 rfl)
    | template _ hheld =>
      refine Node.standsAnywhere_generic fun m hm => ?_
      obtain ⟨nodes, hnodes, hm⟩ := List.mem_flatten.1 hm
      obtain ⟨child, hchild, hconvert⟩ := exists_mem_left_of_forall₂ hheld hnodes
      exact (ih child (List.mem_of_mem_filter hchild)).2 _ hconvert m hm
    | generic _ _ _ h => exact Node.standsAnywhere_generic (hinner _ h)

variable {g : Grammars} {grammar text : String}

/-- The node of an expression may stand anywhere. -/
theorem standsAnywhere_of_expression {node : Node}
    (h : expression g grammar text offset = .ok (some node)) : node.StandsAnywhere := by
  unfold expression at h
  split at h
  · exact nomatch Except.ok.inj h
  · obtain ⟨tree, -, h⟩ := bind_eq_ok_iff.1 h
    split at h
    · exact nomatch Except.ok.inj h
    · split at h
      · exact nomatch Except.ok.inj h
      · rename_i wrapper _
        obtain ⟨found, hfound, heq⟩ := bind_eq_ok_iff.1 h
        obtain ⟨inner, rfl, rfl⟩ := Option.map_eq_some_iff.1 (Except.ok.inj heq)
        exact ((standsAnywhere_of_convert wrapper).1 inner hfound).linkBelow

/-- The nodes of a list of statements may stand anywhere. -/
theorem standsAnywhere_of_statements {nodes : List Node}
    (h : statements g grammar text offset = .ok (some nodes)) :
    ∀ node ∈ nodes, node.StandsAnywhere := by
  unfold statements at h
  obtain ⟨tree, -, h⟩ := bind_eq_ok_iff.1 h
  split at h
  · exact nomatch Except.ok.inj h
  · obtain ⟨found, hfound, heq⟩ := bind_eq_ok_iff.1 h
    obtain rfl := Option.some.inj (Except.ok.inj heq)
    rw [List.forall_mem_map]
    exact fun node hnode =>
      ((standsAnywhere_of_convert tree.root).2 found hfound node hnode).linkBelow

end Script

namespace Component

variable {ctx : Context}

/-- The value of a directive may stand anywhere. -/
theorem standsAnywhere_of_directiveValue {name text : List Char} {offset : Int} {node : Node}
    (h : directiveValue ctx name text offset = .ok (some node)) : node.StandsAnywhere := by
  simp only [directiveValue] at h
  split at h
  · split at h
    · exact nomatch Except.ok.inj h
    · obtain ⟨found, hfound, heq⟩ := bind_eq_ok_iff.1 h
      obtain rfl := Option.some.inj (Except.ok.inj heq)
      refine Node.standsAnywhere_generic fun m hm => ?_
      rw [Option.mem_toList] at hm
      obtain rfl := hm
      exact Script.standsAnywhere_of_expression hfound
  · exact nomatch Except.ok.inj h
  · obtain ⟨found, hfound, h⟩ := bind_eq_ok_iff.1 h
    cases found with
    | some found =>
      obtain rfl := Option.some.inj (Except.ok.inj h)
      exact Script.standsAnywhere_of_expression hfound
    | none =>
      obtain ⟨nodes, hnodes, heq⟩ := bind_eq_ok_iff.1 h
      obtain ⟨nodes, rfl, rfl⟩ := Option.map_eq_some_iff.1 (Except.ok.inj heq)
      exact Node.standsAnywhere_generic (Script.standsAnywhere_of_statements hnodes)
  · exact Script.standsAnywhere_of_expression h

/-- A container may stand anywhere if its expression may. -/
theorem standsAnywhere_container {mark : Mark Node} {expression : Option Node}
    (h : ∀ n, expression = some n → n.StandsAnywhere) :
    (Node.container mark expression).StandsAnywhere :=
  Node.standsAnywhere_of_held rfl rfl fun m hm => h m (Option.mem_toList.1 hm)

/-- The name of a directive may stand anywhere. -/
theorem standsAnywhere_keyNode (raw : String) (d : Directive) : (d.keyNode raw).StandsAnywhere := by
  refine Node.standsAnywhere_of_held rfl rfl fun m hm => Node.standsAnywhere_of_held_eq_nil ?_
  simp only [Directive.keyNode, Node.held, List.mem_cons, List.mem_append, Option.mem_toList,
    Option.map_eq_some_iff, List.mem_map] at hm
  obtain rfl | ⟨_, -, rfl⟩ | ⟨_, -, rfl⟩ := hm <;> rfl

/-- An optional step that gives something was made. -/
theorem exists_of_mapM_eq_ok_some {α β : Type} {f : α → Except Failure β} {x : Option α} {b : β}
    (h : x.mapM f = .ok (some b)) : ∃ a, f a = .ok b := by
  cases x with
  | none => exact nomatch Except.ok.inj h
  | some a =>
    obtain ⟨b', hb, heq⟩ := bind_eq_ok_iff.1 h
    obtain rfl := Option.some.inj (Except.ok.inj heq)
    exact ⟨a, hb⟩

/-- An attribute holds a key and maybe a value, which both may stand anywhere. -/
theorem standsAnywhere_of_attributeNode {n : TreeNode} {node : Node}
    (h : attributeNode ctx n = .ok node) :
    node.isOfKind "VAttribute" = true ∧ ∀ m ∈ node.held, m.StandsAnywhere := by
  have hall {mark : Mark Node} {directive : Bool} {key : Node} {value : Option Node}
      (hkey : key.StandsAnywhere) (hvalue : ∀ v, value = some v → v.StandsAnywhere) :
      (Node.tagAttribute mark directive key value).isOfKind "VAttribute" = true ∧
        ∀ m ∈ (Node.tagAttribute mark directive key value).held, m.StandsAnywhere :=
    ⟨rfl, by simpa [Node.held] using ⟨hkey, hvalue⟩⟩
  unfold attributeNode at h
  obtain ⟨name, -, h⟩ := bind_eq_ok_iff.1 h
  simp only at h
  split at h
  · obtain ⟨value, hvalue, heq⟩ := bind_eq_ok_iff.1 h
    obtain rfl := Except.ok.inj heq
    refine hall (Node.standsAnywhere_of_held_eq_nil rfl) fun v hv => ?_
    subst hv
    obtain ⟨tree, htree⟩ := exists_of_mapM_eq_ok_some hvalue
    obtain ⟨text, -, heq⟩ := bind_eq_ok_iff.1 htree
    obtain rfl := Except.ok.inj heq
    exact Node.standsAnywhere_of_held_eq_nil rfl
  · obtain ⟨value, hvalue, heq⟩ := bind_eq_ok_iff.1 h
    obtain rfl := Except.ok.inj heq
    refine hall (standsAnywhere_keyNode _ _) fun v hv => ?_
    subst hv
    obtain ⟨tree, htree⟩ := exists_of_mapM_eq_ok_some hvalue
    obtain ⟨text, -, htree⟩ := bind_eq_ok_iff.1 htree
    obtain ⟨expression, hexpression, heq⟩ := bind_eq_ok_iff.1 htree
    obtain rfl := Except.ok.inj heq
    refine standsAnywhere_container fun m hm => ?_
    subst hm
    exact standsAnywhere_of_directiveValue hexpression

/-- A mustache may stand anywhere. -/
theorem standsAnywhere_of_mustache {opening closing : Nat} {node : Node}
    (h : mustache ctx opening closing = .ok node) : node.StandsAnywhere := by
  simp only [mustache] at h
  obtain ⟨content, -, h⟩ := bind_eq_ok_iff.1 h
  obtain ⟨expression, hexpression, heq⟩ := bind_eq_ok_iff.1 h
  obtain rfl := Except.ok.inj heq
  refine standsAnywhere_container fun m hm => ?_
  subst hm
  exact Script.standsAnywhere_of_expression hexpression

section Content

variable {Q : Node → Prop} (htext : ∀ mark value, Q (.templateText mark value))
  (hmustache : ∀ opening closing node, opening + 2 ≤ ctx.source.length →
    mustache ctx opening closing = .ok node → Q node)

include htext in
/-- What holds of every text holds of the text between two positions. -/
theorem forall_mem_textBetween {start stop : Nat} {nodes : List Node}
    (h : textBetween ctx start stop = .ok nodes) : ∀ node ∈ nodes, Q node := by
  simp only [textBetween] at h
  split at h
  · obtain rfl := Except.ok.inj h
    simp
  · obtain ⟨decoded, -, h⟩ := bind_eq_ok_iff.1 h
    obtain ⟨value, -, heq⟩ := bind_eq_ok_iff.1 h
    obtain rfl := Except.ok.inj heq
    simpa using htext _ _

include htext hmustache in
/-- What holds of every text and of every mustache holds of all that a scan finds. -/
theorem forall_mem_scan {stop limit cursor : Nat} {found : List Node × Nat}
    (h : scan ctx stop limit cursor = .ok found) : ∀ node ∈ found.1, Q node := by
  fun_induction scan ctx stop limit cursor generalizing found with
  | case1 cursor hinside hnone | case2 cursor hinside opening hopens hnone =>
    obtain ⟨text, hfound, heq⟩ := bind_eq_ok_iff.1 h
    obtain rfl := Except.ok.inj heq
    exact forall_mem_textBetween htext hfound
  | case3 cursor hinside opening hopens closing hcloses ih =>
    obtain ⟨before, hbefore, h⟩ := bind_eq_ok_iff.1 h
    obtain ⟨expression, hexpression, h⟩ := bind_eq_ok_iff.1 h
    obtain ⟨after, hafter, heq⟩ := bind_eq_ok_iff.1 h
    obtain rfl := Except.ok.inj heq
    have hopening : opening + 2 ≤ ctx.source.length := by
      obtain ⟨hle, -, hpair, -⟩ := first_of_findPairBetween? hcloses
      obtain ⟨hlt, -⟩ := List.getElem?_eq_some_iff.1 hpair.1
      omega
    rw [List.forall_mem_append, List.forall_mem_cons]
    exact ⟨forall_mem_textBetween htext hbefore, hmustache _ _ _ hopening hexpression, ih hafter⟩
  | case4 cursor hinside =>
    obtain rfl := Except.ok.inj h
    simp

include htext hmustache in
/-- What holds of every text, of every mustache and of the child elements holds of all nodes of the
content. -/
theorem forall_mem_contentNodes {stop cursor : Nat} {children : List TreeNode}
    {content : List Node} (helements : ∀ child ∈ children, ∀ node,
      elementNode ctx child = .ok node → Q node)
    (h : contentNodes ctx stop cursor children = .ok content) : ∀ node ∈ content, Q node := by
  induction children generalizing cursor content with
  | nil =>
    rw [contentNodes] at h
    obtain ⟨found, hfound, heq⟩ := bind_eq_ok_iff.1 h
    obtain rfl := Except.ok.inj heq
    exact forall_mem_scan htext hmustache hfound
  | cons child rest ih =>
    obtain ⟨helement, helements⟩ := List.forall_mem_cons.1 helements
    rw [contentNodes] at h
    split at h
    · exact ih helements h
    · obtain ⟨found, hfound, h⟩ := bind_eq_ok_iff.1 h
      have hbefore := forall_mem_scan htext hmustache hfound
      simp only at h
      split at h
      · obtain ⟨after, hafter, heq⟩ := bind_eq_ok_iff.1 h
        obtain rfl := Except.ok.inj heq
        exact List.forall_mem_append.2 ⟨hbefore, ih helements hafter⟩
      · split at h
        · obtain ⟨after, hafter, heq⟩ := bind_eq_ok_iff.1 h
          obtain rfl := Except.ok.inj heq
          exact List.forall_mem_append.2 ⟨hbefore, ih helements hafter⟩
        · obtain ⟨node, hnode, h⟩ := bind_eq_ok_iff.1 h
          obtain ⟨after, hafter, heq⟩ := bind_eq_ok_iff.1 h
          obtain rfl := Except.ok.inj heq
          rw [List.forall_mem_append, List.forall_mem_cons]
          exact ⟨hbefore, helement node hnode, ih helements hafter⟩

include htext hmustache in
/-- An element has the node of its opening tag, and its content is made of text, mustaches and child
elements. -/
theorem exists_of_elementNode {n : TreeNode} {node : Node} (helements : ∀ child ∈ n.children,
      ∀ node, elementNode ctx child = .ok node → Q node)
    (h : elementNode ctx n = .ok node) :
    ∃ mark name rawName tag content closing,
      node = .element mark name rawName tag content (Option.map closingNode closing) ∧
      tagNode ctx (openingTag? n) = .ok tag ∧ ∀ m ∈ content, Q m := by
  obtain ⟨kind, start, stop, isNamed, children, fields⟩ := n
  simp only [elementNode, bind_eq_ok_iff] at h
  obtain ⟨rawName, -, tag, htag, h⟩ := h
  split at h
  · obtain ⟨content, hcontent, heq⟩ := bind_eq_ok_iff.1 h
    obtain rfl := Except.ok.inj heq
    refine ⟨_, _, _, _, _, _, rfl, htag, fun m hm => ?_⟩
    obtain ⟨raw, -, hraw⟩ := exists_mem_left_of_forall₂ (mapM_eq_ok_iff.1 hcontent) hm
    obtain ⟨text, -, heq⟩ := bind_eq_ok_iff.1 hraw
    obtain rfl := Except.ok.inj heq
    exact htext _ _
  · obtain ⟨content, hcontent, heq⟩ := bind_eq_ok_iff.1 h
    obtain rfl := Except.ok.inj heq
    exact ⟨_, _, _, _, _, _, rfl, htag, forall_mem_contentNodes htext hmustache helements hcontent⟩

end Content

/-- An opening tag lists what its attributes become. -/
theorem exists_of_tagNode {Q : Node → Prop} {opening : Option TreeNode} {tag : Node}
    (hattribute : ∀ n ∈ opening, ∀ child ∈ n.namedChildren, ∀ a,
      attributeNode ctx child = .ok a → Q a)
    (h : tagNode ctx opening = .ok tag) :
    ∃ mark attributes selfClosing, tag = .startTag mark attributes selfClosing ∧
      ∀ a ∈ attributes, Q a := by
  cases opening with
  | none =>
    obtain rfl := Except.ok.inj h
    exact ⟨_, _, _, rfl, by simp⟩
  | some opening =>
    obtain ⟨attributes, hattributes, heq⟩ := bind_eq_ok_iff.1 h
    obtain rfl := Except.ok.inj heq
    refine ⟨_, _, _, rfl, fun a ha => ?_⟩
    obtain ⟨child, hchild, hnode⟩ := exists_mem_left_of_forall₂ (mapM_eq_ok_iff.1 hattributes) ha
    exact hattribute opening rfl child (List.mem_of_mem_filter hchild) a hnode

/-- An element may stand anywhere if its content may: its attributes are listed by its opening
tag. -/
theorem standsAnywhere_element {mark : Mark Node} {name rawName : String}
    {opening closing : Option TreeNode} {tag : Node} {content : List Node}
    (htag : tagNode ctx opening = .ok tag) (hcontent : ∀ m ∈ content, m.StandsAnywhere) :
    (Node.element mark name rawName tag content (closing.map closingNode)).StandsAnywhere := by
  obtain ⟨tagMark, attributes, selfClosing, rfl, hattributes⟩ :=
    exists_of_tagNode (fun _ _ _ _ _ => standsAnywhere_of_attributeNode) htag
  have hlisted : ∀ a ∈ attributes, a.listed = [] := fun a ha => by
    have hkind := (hattributes a ha).1
    cases a with
    | startTag => exact nomatch hkind
    | _ => rfl
  have hstart : (Node.startTag tagMark attributes selfClosing).Throughout
      Node.HoldsAttributesInTags :=
    Node.throughout_iff.2 ⟨fun a ha => ⟨fun _ => ha, fun hne => absurd (hlisted a ha) hne⟩,
      fun a ha => Node.throughout_of_held (hattributes a ha).2⟩
  have hrest : ∀ m ∈ content ++ (closing.map closingNode).toList, m.StandsAnywhere := by
    refine List.forall_mem_append.2 ⟨hcontent, fun m hm => ?_⟩
    obtain ⟨last, -, rfl⟩ := Option.map_eq_some_iff.1 (Option.mem_toList.1 hm)
    exact Node.standsAnywhere_of_held_eq_nil rfl
  refine ⟨Node.throughout_iff.2 ⟨?_, ?_⟩, rfl, rfl⟩
  · exact List.forall_mem_cons.2
      ⟨⟨fun hkind => Bool.noConfusion hkind, fun _ => rfl⟩, fun m hm => (hrest m hm).inPlace⟩
  · exact List.forall_mem_cons.2 ⟨hstart, fun m hm => (hrest m hm).below⟩

/-- An element of a template may stand anywhere. -/
theorem standsAnywhere_of_elementNode (n : TreeNode) {node : Node}
    (h : elementNode ctx n = .ok node) : node.StandsAnywhere := by
  induction n using TreeNode.induction generalizing node with
  | step n ih =>
    obtain ⟨mark, name, rawName, tag, content, closing, rfl, htag, hcontent⟩ :=
      exists_of_elementNode (fun _ _ => Node.standsAnywhere_of_held_eq_nil rfl)
        (fun _ _ _ _ => standsAnywhere_of_mustache) (fun child hchild node => ih child hchild) h
    exact standsAnywhere_element htag hcontent

/-- The template of the blocks may stand anywhere. -/
theorem standsAnywhere_of_blockNodes {blocks : List TreeNode} {body : List Node}
    {template : Option Node} {node : Node} (htemplate : ∀ n ∈ template, n.StandsAnywhere)
    (h : blockNodes ctx template blocks = .ok (body, some node)) : node.StandsAnywhere := by
  induction blocks generalizing template body with
  | nil =>
    obtain ⟨-, rfl⟩ := Prod.mk.inj (Except.ok.inj h)
    exact htemplate node rfl
  | cons block blocks ih =>
    rw [blockNodes] at h
    split at h
    · obtain ⟨statements, -, h⟩ := bind_eq_ok_iff.1 h
      obtain ⟨⟨rest, inner⟩, hrest, heq⟩ := bind_eq_ok_iff.1 h
      obtain ⟨-, rfl⟩ := Prod.mk.inj (Except.ok.inj heq)
      exact ih htemplate hrest
    · split at h
      · obtain ⟨isOne, -, h⟩ := bind_eq_ok_iff.1 h
        cases isOne with
        | true =>
          obtain ⟨found, hfound, h⟩ := bind_eq_ok_iff.1 h
          refine ih (fun n hn => ?_) h
          obtain rfl := Option.some.inj hn
          exact standsAnywhere_of_elementNode block hfound
        | false => exact ih (by simp) h
      · exact ih htemplate h

end Component

namespace Place

/-- A place in a tree with its attributes in their places: an attribute is listed by an element, and
a node that lists attributes is the opening tag of an element. -/
structure IsListed (places : List Place) (p : Place) : Prop where
  /-- The place is one of the given ones. -/
  mem : p ∈ places
  /-- The attributes below are in their places. -/
  below : p.node.Throughout Node.HoldsAttributesInTags
  /-- An attribute is listed by an element. -/
  listed : p.node.isOfKind "VAttribute" = true → ∃ e ∈ places, ∃ name, Lists e name p
  /-- A node that lists attributes is the opening tag of an element. -/
  tag : p.node.listed ≠ [] → ∃ e ∈ places, e.node.tag? = some p.node ∧ p = e.down p.node

/-- A node that an opening tag lists is listed by the element of the tag. -/
theorem exists_lists {e : Place} {tag n : Node} (htag : e.node.tag? = some tag)
    (hn : n ∈ tag.listed) : ∃ name, Lists e name ((e.down tag).down n) := by
  obtain ⟨node, above⟩ := e
  cases node with
  | element mark name rawName start children closing =>
    obtain rfl := Option.some.inj htag
    cases start with
    | startTag tagMark attributes selfClosing => exact ⟨name, .intro hn⟩
    | _ => exact nomatch hn
  | _ => exact nomatch htag

/-- What is known of a place in a pre-order is known of the places below it. -/
theorem IsListed.of_mem_below {start p q : Place}
    (h : p.IsListed (start.preorder VisitorKeys.default))
    (hq : q ∈ p.below VisitorKeys.default) : q.IsListed (start.preorder VisitorKeys.default) := by
  obtain ⟨hmem, hdown⟩ := mem_held_of_mem_below hq
  obtain ⟨hhere, hheld⟩ := Node.throughout_iff.1 h.below
  obtain ⟨hattribute, htag⟩ := hhere q.node hmem
  refine ⟨(isPreOrder_preorder _).mem_next_of_mem h.mem hq, hheld q.node hmem, fun hkind => ?_,
    fun hne => ?_⟩
  · have hlisted := hattribute hkind
    obtain ⟨e, he, hetag, hedown⟩ := h.tag (List.ne_nil_of_mem hlisted)
    obtain ⟨name, hlists⟩ := exists_lists hetag hlisted
    rw [← hedown, ← hdown] at hlists
    exact ⟨e, he, name, hlists⟩
  · exact ⟨p, h.mem, htag hne, hdown⟩

end Place

namespace Component

/-- In a finished program every attribute of a template that may stand anywhere is listed by an
element. -/
theorem exists_lists_of_standsAnywhere {mark : Mark Node} {body : List Node} {template : Node}
    (h : template.StandsAnywhere) :
    ∀ p ∈ (Node.program mark body (some template)).linked.templatePlaces,
      p.node.isOfKind "VAttribute" = true →
        ∃ e ∈ (Node.program mark body (some template)).linked.templatePlaces, ∃ name,
          Place.Lists e name p := by
  generalize hn : (Node.program mark body (some template)).linked = n
  have hplaces : n.templatePlaces =
      ((Place.root n).down template.relinked).preorder VisitorKeys.default := hn ▸ rfl
  rw [hplaces]
  have hstart : ((Place.root n).down template.relinked).IsListed
      (((Place.root n).down template.relinked).preorder VisitorKeys.default) := by
    refine ⟨?_, h.relinked.below, fun hkind => ?_, fun hne => absurd h.relinked.lists hne⟩
    · rw [Place.preorder_eq]
      exact List.mem_cons_self
    · exact absurd hkind (by rw [Place.down, h.relinked.kind]; decide)
  intro p hp
  exact (Place.forall_mem_preorder (fun _ hq _ hr => hq.of_mem_below hr) hstart p hp).listed

/-- In the template of a component every attribute is listed by an element. -/
theorem exists_lists_of_parse {g : Grammars} {text : String} {scriptGrammar : Option String}
    {n : Node} (h : parse g text scriptGrammar = .ok n) :
    ∀ p ∈ n.templatePlaces, p.node.isOfKind "VAttribute" = true →
      ∃ e ∈ n.templatePlaces, ∃ name, Place.Lists e name p := by
  rw [parse_eq] at h
  obtain ⟨tree, -, h⟩ := bind_eq_ok_iff.1 h
  obtain ⟨grammar, -, h⟩ := bind_eq_ok_iff.1 h
  obtain ⟨⟨body, template⟩, hblocks, heq⟩ := bind_eq_ok_iff.1 h
  obtain rfl := Except.ok.inj heq
  cases template with
  | none => simp [Node.linked, Node.linkBelow, Node.linkMaybe, Node.templatePlaces]
  | some template =>
    exact exists_lists_of_standsAnywhere (standsAnywhere_of_blockNodes (by simp) hblocks)

end Component

/-- A finished tree: that of a script, of a component, or of a mapping. -/
inductive Node.IsFinished : Node → Prop where
  | script {g : Grammars} {grammar text : String} {offset : Int} {n : Node}
      (hparse : Script.parse g grammar text offset = .ok n) : IsFinished n
  | component {g : Grammars} {text : String} {scriptGrammar : Option String} {n : Node}
      (hparse : Component.parse g text scriptGrammar = .ok n) : IsFinished n
  | mapping {entries : List (Value × Value)} {n : Node}
      (hread : Node.ofValue (.map entries) = .ok n) : IsFinished n

/-- What a mapping stands for has no parent before it is linked. -/
theorem Payload.Builds.parent_eq {fields : Payload} {n : Node} (h : fields.Builds n) :
    n.mark.parent = .absent := by
  cases h <;> rfl

/-- A finished tree is the linked form of a tree whose root has no parent. -/
theorem Node.IsFinished.exists_linked {n : Node} (h : n.IsFinished) :
    ∃ root : Node, root.mark.parent = .absent ∧ n = root.linked := by
  cases h with
  | script hparse =>
    obtain ⟨tree, -, h⟩ := bind_eq_ok_iff.1 hparse
    split at h
    · exact nomatch h
    · obtain ⟨body, -, heq⟩ := bind_eq_ok_iff.1 h
      exact ⟨.program { span := Script.spanOf _ tree.root } body none, rfl,
        (Except.ok.inj heq).symm⟩
  | component hparse =>
    rw [Component.parse_eq] at hparse
    obtain ⟨tree, -, h⟩ := bind_eq_ok_iff.1 hparse
    obtain ⟨grammar, -, h⟩ := bind_eq_ok_iff.1 h
    obtain ⟨parts, -, heq⟩ := bind_eq_ok_iff.1 h
    exact ⟨_, rfl, (Except.ok.inj heq).symm⟩
  | mapping hread =>
    obtain ⟨root, hroot, heq⟩ := bind_eq_ok_iff.1 hread
    exact ⟨root, (Payload.builds_of_build hroot).parent_eq, (Except.ok.inj heq).symm⟩

/-- Parent links are structural in every finished tree. Its root has no parent, the walks from the
root and from the template find each node linked to the node whose child it is, and the template is
linked to the root. An attribute of the template that an element lists finds the name of the
element, and in a component every attribute of the template is listed by one. -/
theorem Node.IsFinished.hasStructuralParents {n : Node} (h : n.IsFinished) :
    n.HasStructuralParents ∧
      ∀ g text scriptGrammar, Component.parse g text scriptGrammar = .ok n →
        ∀ p ∈ n.templatePlaces, p.node.isOfKind "VAttribute" = true →
          ∃ e ∈ n.templatePlaces, ∃ name, Place.Lists e name p ∧
            p.elementNameAbove? = some name := by
  obtain ⟨root, hroot, rfl⟩ := h.exists_linked
  have hparents := Node.hasStructuralParents_linked hroot
  refine ⟨hparents, fun g text scriptGrammar hparse p hp hkind => ?_⟩
  obtain ⟨e, he, name, hlists⟩ := Component.exists_lists_of_parse hparse p hp hkind
  exact ⟨e, he, name, hlists, (hparents.names e he name p hlists).2⟩

namespace Component

/-- A component whose template has an attribute. -/
def sampleListing : String := "<template><i18n path=\"k\"></i18n></template>"

/-- Grammars that know the HTML tree of the component and no scripts. -/
def sampleListingGrammars : Grammars where
  installed _ := true
  tree? grammar _ := if grammar != Grammar.html then none else some
    { root := .mk "document" 0 43 true
        [.mk "element" 0 43 true
          [.mk "start_tag" 0 10 true [.mk "tag_name" 1 9 true [] []] [],
            .mk "element" 10 32 true
              [.mk "start_tag" 10 25 true
                  [.mk "tag_name" 11 15 true [] [],
                    .mk "attribute" 16 24 true
                      [.mk "attribute_name" 16 20 true [] [],
                        .mk "quoted_attribute_value" 21 24 true
                          [.mk "attribute_value" 22 23 true [] []] []] []] [],
                .mk "end_tag" 25 32 true [.mk "tag_name" 27 31 true [] []] []] [],
            .mk "end_tag" 32 43 true [.mk "tag_name" 34 42 true [] []] []] []] []
      hasError := false }

/-- The attribute of the component. -/
def sampleAttribute : Node :=
  .tagAttribute { span := Span.bytes 16 24 } false (.templateName {} "path" "path")
    (some (.templateLiteral { span := Span.bytes 22 23 } "k"))

/-- The program of the component. -/
def sampleListingProgram : Node :=
  (Node.program { span := Span.bytes 0 43 } []
    (some (.element { span := Span.bytes 0 43 } "template" "template"
      (.startTag { span := Span.bytes 0 10 } [] false)
      [.element { span := Span.bytes 10 32 } "i18n" "i18n"
        (.startTag { span := Span.bytes 10 25 } [sampleAttribute] false) []
        (some (.endTag { span := Span.bytes 25 32 }))]
      (some (.endTag { span := Span.bytes 32 43 }))))).linked

/-- The component is parsed. -/
theorem parse_sampleListing :
    parse sampleListingGrammars sampleListing none = .ok sampleListingProgram := by
  cbv

/-- The attribute stands in the template of the program. -/
theorem exists_templatePlace_sampleAttribute :
    ∃ p ∈ sampleListingProgram.templatePlaces, p.node = sampleAttribute.relinked := by
  have hstep {n m k : Node} (hm : m ∈ n.held) (hk : k ∈ m.inOrder VisitorKeys.default) :
      k ∈ n.inOrder VisitorKeys.default :=
    Node.mem_inOrder_of_mem_heldNodes (Node.heldNodes_default n ▸ hm) hk
  have hmem : sampleAttribute.relinked ∈
      sampleListingProgram.templatePlaces.map Place.node := by
    rw [sampleListingProgram, map_node_templatePlaces_linked]
    refine List.mem_map_of_mem ?_
    exact hstep (.tail _ (.head _)) (hstep (.head _) (hstep (.head _) (Node.mem_inOrder_self _ _)))
  obtain ⟨p, hp, heq⟩ := List.mem_map.1 hmem
  exact ⟨p, hp, heq⟩

/-- The parents of the component are structural, and its attribute finds the name of the element
that lists it. -/
theorem hasStructuralParents_sampleListing :
    parse sampleListingGrammars sampleListing none = .ok sampleListingProgram ∧
      sampleListingProgram.HasStructuralParents ∧
      ∃ p ∈ sampleListingProgram.templatePlaces, p.node = sampleAttribute.relinked ∧
        ∃ e ∈ sampleListingProgram.templatePlaces, ∃ name, Place.Lists e name p ∧
          p.elementNameAbove? = some name := by
  have hparents := (Node.IsFinished.component parse_sampleListing).hasStructuralParents
  obtain ⟨p, hp, heq⟩ := exists_templatePlace_sampleAttribute
  exact ⟨parse_sampleListing, hparents.1, p, hp, heq,
    hparents.2 _ _ _ parse_sampleListing p hp (by rw [heq]; rfl)⟩

end Component

end TranslationKeys
