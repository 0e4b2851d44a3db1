import TranslationKeys.Proofs.Causes
import TranslationKeys.Proofs.Node.Linking
import TranslationKeys.Proofs.Tree.Nodes
import TranslationKeys.Script.Parse

/-!
# What conversion makes of a script tree

One rule for each kind of tree node says which node it becomes, from what its children become. All
later facts on converted trees follow these rules. Conversion fails for one cause only: an escape
sequence whose number is too large to be told that it is no code point.
-/

namespace TranslationKeys

/-- The child that a field of a tree node leads to. -/
def TreeNode.child? (n : TreeNode) (name : String) : Option TreeNode :=
  (n.fields.lookup name).bind fun i => n.children[i]?

/-- The child that a field leads to is a child. -/
theorem TreeNode.mem_children_of_child? {n child : TreeNode} {name : String}
    (h : n.child? name = some child) : child ∈ n.children := by
  obtain ⟨i, -, hi⟩ := Option.bind_eq_some_iff.1 h
  exact List.mem_of_getElem? hi

/-- Whether a node is a call. -/
def Node.isCall : Node → Bool
  | call .. => true
  | _ => false

namespace Escape

/-- An escape sequence names a number that is too large to be told that it is no code point. -/
def Overflows (sequence : List Char) : Prop :=
  ∃ numeral n, numeral? (sequence.drop 1) = some numeral ∧
    Integer.read? 16 numeral = some n ∧ isTestable n = false

/-- A numeral stands for something unless its number is too large. -/
theorem ofNumeral_eq_error_iff {body numeral : List Char} {e : Failure} :
    ofNumeral body numeral = .error e ↔
      e = .codePointOverflow ∧ ∃ n, Integer.read? 16 numeral = some n ∧ isTestable n = false := by
  simp only [ofNumeral]
  cases Integer.read? 16 numeral with
  | none => simp
  | some n =>
    simp only [Option.some.injEq, exists_eq_left', Bool.not_eq_true']
    by_cases htestable : isTestable n = false
    · rw [if_pos htestable, Except.error.injEq, eq_comm]
      exact (and_iff_left htestable).symm
    · rw [if_neg htestable]
      refine iff_of_false (fun h => ?_) fun h => htestable h.2
      cases n with
      | ofNat k => cases hpoint : CodePoint.ofNat? k <;> simp [hpoint] at h
      | negSucc k => exact nomatch h

/-- An escape sequence stands for something unless it overflows. -/
theorem decode_eq_error_iff {sequence : List Char} {e : Failure} :
    decode sequence = .error e ↔ e = .codePointOverflow ∧ Overflows sequence := by
  simp only [decode, Overflows]
  cases numeral? (sequence.drop 1) with
  | none => simp
  | some numeral => simp [ofNumeral_eq_error_iff]

end Escape

namespace Script

/-- Whether a tree node stands for a node: punctuation and comments do not. -/
def isCode (n : TreeNode) : Bool :=
  n.named && !skippedKinds.contains n.kind

/-- The children of a tree node that stand for nodes. -/
def codeChildren (n : TreeNode) : List TreeNode :=
  n.children.filter isCode

section Equations

variable {source : List UInt8} {offset : Int}

/-- Nodes are converted one by one. -/
theorem convertEach_eq_map (ns : List TreeNode) :
    convertEach source offset ns = ns.map (convert source offset) :=
  eq_map_of_cons rfl (fun _ _ => rfl) ns

/-- A node that is converted is kept beside what it becomes. -/
@[simp]
theorem tree_convert (n : TreeNode) : (convert source offset n).tree = n := by
  cases n
  rfl

/-- The inner nodes of a converted node are the conversions of its own, one by one. -/
theorem inner_convert (n : TreeNode) :
    (convert source offset n).inner =
      Converted.collect (n.children.map (convert source offset)) := by
  cases n
  simp only [convert, convertEach_eq_map, TreeNode.children]

/-- A tree node that stands for a node becomes what is assembled from its converted children. -/
theorem node_convert (n : TreeNode) :
    (convert source offset n).node =
      if isCode n then some <$> assemble source offset n (n.children.map (convert source offset))
      else .ok none := by
  cases n with
  | mk kind start stop isNamed children fields =>
    simp only [convert, convertEach_eq_map]
    by_cases hskip : (!isNamed || skippedKinds.contains kind) = true
    · have hcode : ¬ isCode (.mk kind start stop isNamed children fields) = true := by
        simpa [isCode, TreeNode.named, TreeNode.kind, imp_iff_not_or] using hskip
      rw [if_pos hskip, if_neg hcode]
    · have hcode : isCode (.mk kind start stop isNamed children fields) = true := by
        simpa [isCode, TreeNode.named, TreeNode.kind] using hskip
      rw [if_neg hskip, if_pos hcode, bind_pure_comp]
      rfl

/-- A tree node that stands for a node is one that stands for something. -/
theorem isCode_of_node_convert {n : TreeNode} {node : Node}
    (h : (convert source offset n).node = .ok (some node)) : isCode n = true := by
  rw [node_convert] at h
  split at h
  · assumption
  · exact nomatch Except.ok.inj h

/-- What a tree node becomes is assembled from its converted children. -/
theorem assemble_of_node_convert {n : TreeNode} {node : Node}
    (h : (convert source offset n).node = .ok (some node)) :
    assemble source offset n (n.children.map (convert source offset)) = .ok node := by
  have hcode := isCode_of_node_convert h
  rw [node_convert, if_pos hcode] at h
  obtain ⟨found, hfound, heq⟩ := map_eq_ok_iff.1 h
  rwa [← Option.some.inj heq]

/-- The part that a field leads to is what the child there becomes. -/
theorem fieldPart?_map_convert (n : TreeNode) (name : String) :
    fieldPart? n (n.children.map (convert source offset)) name =
      (n.child? name).map (convert source offset) := by
  simp only [fieldPart?, TreeNode.child?, List.getElem?_map]
  cases n.fields.lookup name <;> rfl

/-- Parts are collected one after the other, unnamed ones left out. -/
theorem collect_cons (part : Converted) (parts : List Converted) :
    Converted.collect (part :: parts) =
      if part.tree.named then
        part.node >>= fun node => (node.toList ++ ·) <$> Converted.collect parts
      else Converted.collect parts := by
  unfold Converted.collect
  rw [List.filter_cons]
  split
  · rw [List.mapM_cons]
    cases part.node with
    | error e => rfl
    | ok node =>
      cases (parts.filter (·.tree.named)).mapM Converted.node with
      | error e => rfl
      | ok nodes => cases node <;> rfl
  · rfl

/-- The nodes that the children of a tree node become, one for each child that stands for one. -/
theorem inner_convert_eq_ok_iff {n : TreeNode} {nodes : List Node} :
    (convert source offset n).inner = .ok nodes ↔
      List.Forall₂ (fun child node => (convert source offset child).node = .ok (some node))
        (codeChildren n) nodes := by
  rw [inner_convert, codeChildren]
  induction n.children generalizing nodes with
  | nil =>
    rw [List.filter_nil, List.forall₂_nil_left_iff]
    exact ⟨fun h => (Except.ok.inj h).symm, fun h => h ▸ rfl⟩
  | cons child children ih =>
    rw [List.map_cons, collect_cons, tree_convert]
    by_cases hcode : isCode child = true
    · have hnamed : child.named = true := (Bool.and_eq_true_iff.1 hcode).1
      rw [List.filter_cons_of_pos hcode, if_pos hnamed, bind_eq_ok_iff]
      constructor
      · intro h
        obtain ⟨found, hfound, h⟩ := h
        obtain ⟨rest, hrest, rfl⟩ := map_eq_ok_iff.1 h
        rw [node_convert, if_pos hcode] at hfound
        obtain ⟨node, hnode, rfl⟩ := map_eq_ok_iff.1 hfound
        exact .cons (by rw [node_convert, if_pos hcode, hnode]; rfl) (ih.1 hrest)
      · intro h
        obtain ⟨node, rest, hnode, hrest, rfl⟩ := List.forall₂_cons_left_iff.1 h
        exact ⟨some node, hnode, by rw [ih.2 hrest]; rfl⟩
    · have hnone : (convert source offset child).node = .ok none := by
        rw [node_convert, if_neg hcode]
      rw [List.filter_cons_of_neg hcode, ← ih, hnone]
      split
      · cases Converted.collect (children.map (convert source offset)) <;> rfl
      · rfl

end Equations

/-- The kinds that become nodes without children, whatever stands below them. -/
def leafKinds : List String :=
  identifierKinds ++ ["string", "number", "regex", "this", "true", "false", "null"]

/-- Whether a tree node is an expression that stands in a template string. -/
def isSubstitution (n : TreeNode) : Bool :=
  n.named && n.kind == "template_substitution"

/-- The node in the place of an operand that is missing. -/
def missing : Node := .generic {} "missing" []

section Rules

variable (source : List UInt8) (offset : Int)

/-- What the child in a field becomes, a placeholder standing in for one that is missing. -/
inductive IsOperand : Option TreeNode → Node → Prop where
  | code {n : TreeNode} {node : Node} (hnode : (convert source offset n).node = .ok (some node)) :
      IsOperand (some n) node
  | missing {child : Option TreeNode} (hnone : ∀ n ∈ child, isCode n = false) :
      IsOperand child missing

/-- What the child in the field of a call's arguments becomes. -/
inductive AreArguments : Option TreeNode → List Node → Prop where
  | absent : AreArguments none []
  | list {n : TreeNode} {nodes : List Node} (hkind : n.kind = "arguments")
      (hinner : (convert source offset n).inner = .ok nodes) : AreArguments (some n) nodes
  | template {n : TreeNode} {node : Node} (hkind : n.kind ≠ "arguments")
      (hnode : IsOperand source offset (some n) node) : AreArguments (some n) [node]

/-- The node that a tree node which stands for one becomes, by its kind. -/
inductive Becomes (n : TreeNode) : Node → Prop where
  /-- A name, a literal or `this`. -/
  | leaf {node : Node} (hkind : n.kind ∈ leafKinds) (hheld : node.held = [])
      (hspan : node.mark.span = spanOf offset n) (hcall : node.isCall = false) :
      Becomes n node
  /-- A call. -/
  | call {callee : Node} {arguments : List Node} {optional : Bool}
      (hkind : n.kind = "call_expression")
      (harguments : AreArguments source offset (n.child? "arguments") arguments)
      (hcallee : IsOperand source offset (n.child? "function") callee) :
      Becomes n (.call { span := spanOf offset n } callee arguments optional)
  /-- An access to a property by its name. -/
  | member {object property : Node} {optional : Bool} (hkind : n.kind = "member_expression")
      (hobject : IsOperand source offset (n.child? "object") object)
      (hproperty : IsOperand source offset (n.child? "property") property) :
      Becomes n (.member { span := spanOf offset n } object property false optional)
  /-- An access to a property by subscript. -/
  | subscript {object property : Node} {optional : Bool} (hkind : n.kind = "subscript_expression")
      (hobject : IsOperand source offset (n.child? "object") object)
      (hproperty : IsOperand source offset (n.child? "index") property) :
      Becomes n (.member { span := spanOf offset n } object property true optional)
  /-- Parentheses around one node become that node. -/
  | unwrapped {node : Node} (hkind : n.kind = "parenthesized_expression")
      (hinner : (convert source offset n).inner = .ok [node]) : Becomes n node
  /-- Of a template string only the substituted expressions are kept. -/
  | template {held : List (List Node)} (hkind : n.kind = "template_string")
      (hheld : List.Forall₂ (fun child nodes => (convert source offset child).inner = .ok nodes)
        (n.children.filter isSubstitution) held) :
      Becomes n (.generic { span := spanOf offset n } "TemplateLiteral" held.flatten)
  /-- All else is a generic node over its children. -/
  | generic {nodes : List Node} (hleaf : n.kind ∉ leafKinds)
      (hkind : n.kind ∉
        ["call_expression", "member_expression", "subscript_expression", "template_string"])
      (hmany : n.kind = "parenthesized_expression" → ∀ node, nodes ≠ [node])
      (hinner : (convert source offset n).inner = .ok nodes) :
      Becomes n (.generic { span := spanOf offset n } n.kind nodes)

end Rules

section Inversion

variable {source : List UInt8} {offset : Int}

/-- An operand is what the child in its field becomes, or a placeholder. -/
theorem isOperand_of_expected {child : Option TreeNode} {node : Node}
    (h : Converted.expected (child.map (convert source offset)) = .ok node) :
    IsOperand source offset child node := by
  cases child with
  | none =>
    obtain rfl : missing = node := Except.ok.inj h
    exact .missing (by simp)
  | some n =>
    obtain ⟨found, hfound, heq⟩ := bind_eq_ok_iff.1 h
    cases found with
    | none =>
      obtain rfl : missing = node := Except.ok.inj heq
      refine .missing fun m hm => ?_
      obtain rfl : n = m := Option.some.inj hm
      rw [node_convert] at hfound
      split at hfound
      · obtain ⟨_, -, hnone⟩ := map_eq_ok_iff.1 hfound
        exact nomatch hnone
      · exact Bool.eq_false_of_not_eq_true ‹_›
    | some m =>
      obtain rfl : m = node := Except.ok.inj heq
      exact .code hfound

/-- The arguments of a call are what its list of arguments becomes, or a template. -/
theorem areArguments_of_callArguments {child : Option TreeNode} {nodes : List Node}
    (h : callArguments (child.map (convert source offset)) = .ok nodes) :
    AreArguments source offset child nodes := by
  cases child with
  | none =>
    obtain rfl : [] = nodes := Except.ok.inj h
    exact .absent
  | some n =>
    simp only [callArguments, Option.map_some, tree_convert] at h
    by_cases hkind : n.kind = "arguments"
    · rw [if_pos (by simpa using hkind)] at h
      exact .list hkind h
    · rw [if_neg (by simpa using hkind)] at h
      obtain ⟨node, hnode, heq⟩ := bind_eq_ok_iff.1 h
      obtain rfl : [node] = nodes := Except.ok.inj heq
      exact .template hkind (isOperand_of_expected hnode)

/-- An access becomes a node over its two operands. -/
theorem exists_of_access {mark : Mark Node} {n : TreeNode} {field : String} {computed : Bool}
    {node : Node}
    (h : access mark n (n.children.map (convert source offset)) field computed = .ok node) :
    ∃ object property optional, node = .member mark object property computed optional ∧
      IsOperand source offset (n.child? "object") object ∧
      IsOperand source offset (n.child? field) property := by
  simp only [access, fieldPart?_map_convert] at h
  obtain ⟨object, hobject, h⟩ := bind_eq_ok_iff.1 h
  obtain ⟨property, hproperty, heq⟩ := bind_eq_ok_iff.1 h
  exact ⟨object, property, _, (Except.ok.inj heq).symm, isOperand_of_expected hobject,
    isOperand_of_expected hproperty⟩

/-- The constants are the kinds that have a value. -/
theorem constant?_isSome_iff {kind : String} :
    (constant? kind).isSome ↔ kind ∈ ["true", "false", "null"] := by
  unfold constant?
  split <;> simp_all

/-- A literal is a leaf. -/
theorem becomes_literal {n : TreeNode} {value : Scalar} {raw : String}
    (hkind : n.kind ∈ leafKinds) :
    Becomes source offset n (.literal { span := spanOf offset n } value raw) :=
  .leaf hkind rfl rfl rfl

/-- A node is assembled by the rule for its kind. -/
theorem becomes_of_assemble {n : TreeNode} {node : Node}
    (h : assemble source offset n (n.children.map (convert source offset)) = .ok node) :
    Becomes source offset n node := by
  unfold assemble at h
  split at h
  · rename_i hkind
    obtain ⟨text, -, heq⟩ := bind_eq_ok_iff.1 h
    obtain rfl := Except.ok.inj heq
    exact .leaf (List.mem_append_left _ (List.contains_iff_mem.1 hkind)) rfl rfl rfl
  · rename_i hname
    split at h
    case h_1 hkind =>
      simp only [fieldPart?_map_convert] at h
      obtain ⟨arguments, harguments, h⟩ := bind_eq_ok_iff.1 h
      obtain ⟨callee, hcallee, heq⟩ := bind_eq_ok_iff.1 h
      obtain rfl := Except.ok.inj heq
      exact .call hkind (areArguments_of_callArguments harguments) (isOperand_of_expected hcallee)
    case h_2 hkind =>
      obtain ⟨object, property, optional, rfl, hobject, hproperty⟩ := exists_of_access h
      exact .member hkind hobject hproperty
    case h_3 hkind =>
      obtain ⟨object, property, optional, rfl, hobject, hproperty⟩ := exists_of_access h
      exact .subscript hkind hobject hproperty
    case h_4 hkind =>
      obtain ⟨nodes, hnodes, h⟩ := bind_eq_ok_iff.1 h
      rw [← inner_convert] at hnodes
      split at h
      · obtain rfl := Except.ok.inj h
        exact .unwrapped hkind hnodes
      · rename_i hmany
        obtain rfl := Except.ok.inj h
        exact .generic (by rw [hkind]; decide) (by rw [hkind]; decide) (fun _ => hmany) hnodes
    case h_5 hkind =>
      obtain ⟨value, -, h⟩ := bind_eq_ok_iff.1 h
      obtain ⟨raw, -, heq⟩ := bind_eq_ok_iff.1 h
      obtain rfl := Except.ok.inj heq
      exact becomes_literal (by rw [hkind]; decide)
    case h_6 hkind =>
      obtain ⟨raw, -, heq⟩ := bind_eq_ok_iff.1 h
      obtain rfl := Except.ok.inj heq
      exact becomes_literal (by rw [hkind]; decide)
    case h_7 hkind =>
      obtain ⟨raw, -, heq⟩ := bind_eq_ok_iff.1 h
      obtain rfl := Except.ok.inj heq
      exact becomes_literal (by rw [hkind]; decide)
    case h_8 hkind =>
      obtain ⟨held, hheld, heq⟩ := bind_eq_ok_iff.1 h
      obtain rfl := Except.ok.inj heq
      rw [List.filter_map, List.mapM_map, mapM_eq_ok_iff] at hheld
      simp only [Function.comp_def, tree_convert] at hheld
      exact .template hkind hheld
    case h_9 hkind =>
      obtain rfl := Except.ok.inj h
      exact .leaf (by rw [hkind]; decide) rfl rfl rfl
    case h_10 hcall hmember hsubscript hparens hstring hnumber hregex htemplate hthis =>
      cases hconstant : constant? n.kind with
      | some value =>
        rw [hconstant] at h
        obtain rfl := Except.ok.inj h
        have hkind := constant?_isSome_iff.1 (Option.isSome_iff_exists.2 ⟨value, hconstant⟩)
        exact becomes_literal (List.mem_append_right _ (by simp_all))
      | none =>
        rw [hconstant] at h
        obtain ⟨nodes, hnodes, heq⟩ := bind_eq_ok_iff.1 h
        obtain rfl := Except.ok.inj heq
        rw [← inner_convert] at hnodes
        have hkind : n.kind ∉ ["true", "false", "null"] := fun hmem =>
          absurd (constant?_isSome_iff.2 hmem) (by simp [hconstant])
        have hleaf : n.kind ∉ leafKinds := by
          simp_all [leafKinds]
        exact .generic hleaf (by simp_all) (fun h => absurd h hparens) hnodes

/-- A tree node that stands for a node becomes it by the rule for its kind. -/
theorem becomes_of_node_convert {n : TreeNode} {node : Node}
    (h : (convert source offset n).node = .ok (some node)) : Becomes source offset n node :=
  becomes_of_assemble (assemble_of_node_convert h)

end Inversion

/-- A tree node that is no pair of parentheses around exactly one node. -/
def IsBare (n : TreeNode) : Prop :=
  n.kind = "parenthesized_expression" → ∀ only, codeChildren n ≠ [only]

section Throughout

variable {source : List UInt8} {offset : Int} {P : Node → Prop}

/-- What holds one node is parentheses, or whatever else, around exactly one tree node. -/
theorem exists_codeChildren_eq {n : TreeNode} {node : Node}
    (h : (convert source offset n).inner = .ok [node]) :
    ∃ only, codeChildren n = [only] ∧ (convert source offset only).node = .ok (some node) := by
  obtain ⟨only, rest, honly, hrest, hcode⟩ :=
    List.forall₂_cons_right_iff.1 (inner_convert_eq_ok_iff.1 h)
  exact ⟨only, by rw [hcode, List.forall₂_nil_right_iff.1 hrest], honly⟩

/-- Parentheses that are bare do not hold one node. -/
theorem IsBare.inner_ne {n : TreeNode} {node : Node} (h : IsBare n)
    (hkind : n.kind = "parenthesized_expression") :
    (convert source offset n).inner ≠ .ok [node] := by
  intro hinner
  obtain ⟨only, honly, -⟩ := exists_codeChildren_eq hinner
  exact h hkind only honly

/-- What becomes of a tree node by another rule than that for parentheses is bare. -/
theorem isBare_of_ne {n : TreeNode} (h : n.kind ≠ "parenthesized_expression") : IsBare n :=
  fun hkind => absurd hkind h

/-- Something holds throughout an operand if it holds throughout what its tree becomes. -/
theorem throughout_of_isOperand {child : Option TreeNode} {node : Node} (hmissing : P missing)
    (hchild : ∀ n ∈ child, ∀ node, (convert source offset n).node = .ok (some node) →
      node.Throughout P)
    (h : IsOperand source offset child node) : node.Throughout P := by
  cases h with
  | code hnode => exact hchild _ rfl _ hnode
  | missing => exact Node.throughout_iff.2 ⟨hmissing, by simp [missing, Node.held]⟩

/-- Something holds throughout what a tree becomes if it holds of what its bare nodes become and of
the placeholder. -/
theorem throughout_of_convert (hmissing : P missing) (n : TreeNode)
    (hnode : ∀ m ∈ n.nodes, IsBare m → ∀ node, (convert source offset m).node = .ok (some node) →
      P node) :
    (∀ node, (convert source offset n).node = .ok (some node) → node.Throughout P) ∧
      ∀ nodes, (convert source offset n).inner = .ok nodes → ∀ node ∈ nodes,
        node.Throughout P := by
  induction n using TreeNode.induction with
  | step n ih =>
    have hbelow : ∀ child ∈ n.children,
        (∀ node, (convert source offset child).node = .ok (some node) → node.Throughout P) ∧
          ∀ nodes, (convert source offset child).inner = .ok nodes → ∀ node ∈ nodes,
            node.Throughout P := fun child hchild =>
      ih child hchild fun m hm => hnode m (TreeNode.mem_nodes_of_mem_children hchild hm)
    have hinner (nodes : List Node) (h : (convert source offset n).inner = .ok nodes) :
        ∀ node ∈ nodes, node.Throughout P := by
      intro node hmem
      obtain ⟨child, hchild, hconvert⟩ :=
        exists_mem_left_of_forall₂ (inner_convert_eq_ok_iff.1 h) hmem
      exact (hbelow child (List.mem_of_mem_filter hchild)).1 node hconvert
    refine ⟨fun node hconvert => ?_, hinner⟩
    have hfield (name : String) : ∀ child ∈ n.child? name, ∀ node,
        (convert source offset child).node = .ok (some node) → node.Throughout P :=
      fun child hchild => (hbelow child (TreeNode.mem_children_of_child? hchild)).1
    have hself (hbare : IsBare n) (hheld : ∀ m ∈ node.held, m.Throughout P) : node.Throughout P :=
      Node.throughout_iff.2 ⟨hnode n n.mem_nodes_self hbare node hconvert, hheld⟩
    have hbecomes := becomes_of_node_convert hconvert
    cases hbecomes with
    | leaf hkind hheld =>
      refine hself (isBare_of_ne fun heq => ?_) (by simp [hheld])
      rw [heq] at hkind
      exact absurd hkind (by decide)
    | call hkind harguments hcallee =>
      refine hself (isBare_of_ne (by rw [hkind]; decide)) ?_
      rw [Node.held, List.forall_mem_cons]
      refine ⟨throughout_of_isOperand hmissing (hfield _) hcallee, ?_⟩
      generalize hchild : n.child? "arguments" = child at harguments
      cases harguments with
      | absent => simp
      | list _ hlist => exact (hbelow _ (TreeNode.mem_children_of_child? hchild)).2 _ hlist
      | template _ hoperand =>
        rw [← hchild] at hoperand
        simpa using throughout_of_isOperand hmissing (hfield _) hoperand
    | member hkind hobject hproperty | subscript hkind hobject hproperty =>
      refine hself (isBare_of_ne (by rw [hkind]; decide)) ?_
      simp only [Node.held, List.forall_mem_cons]
      exact ⟨throughout_of_isOperand hmissing (hfield _) hobject,
        throughout_of_isOperand hmissing (hfield _) hproperty, by simp⟩
    | unwrapped _ h => exact hinner _ h _ (List.mem_singleton.2 rfl)
    | template hkind hheld =>
      refine hself (isBare_of_ne (by rw [hkind]; decide)) fun m hm => ?_
      obtain ⟨nodes, hnodes, hm⟩ := List.mem_flatten.1 hm
      obtain ⟨child, hchild, hconvert⟩ := exists_mem_left_of_forall₂ hheld hnodes
      exact (hbelow child (List.mem_of_mem_filter hchild)).2 _ hconvert m hm
    | generic _ _ hmany h =>
      refine hself (fun hkind only honly => ?_) (hinner _ h)
      have hnodes := inner_convert_eq_ok_iff.1 h
      rw [honly] at hnodes
      obtain ⟨made, rest, -, hrest, rfl⟩ := List.forall₂_cons_left_iff.1 hnodes
      rw [List.forall₂_nil_left_iff.1 hrest] at hmany
      exact hmany hkind made rfl

end Throughout

section Failing

variable {source : List UInt8} {offset : Int} {cause : Failure → Prop}

/-- The nodes that converted parts become fail only for what the parts fail for. -/
theorem failsOnlyBy_collect {parts : List Converted}
    (h : ∀ part ∈ parts, FailsOnlyBy cause part.node) :
    FailsOnlyBy cause (Converted.collect parts) :=
  .bind (.mapM fun part hpart => h part (List.mem_of_mem_filter hpart)) fun _ _ => .pure _

/-- A part that has to be there fails only for what it fails for itself. -/
theorem failsOnlyBy_expected {part : Option Converted}
    (h : ∀ p ∈ part, FailsOnlyBy cause p.node) : FailsOnlyBy cause (Converted.expected part) := by
  cases part with
  | none => exact .pure _
  | some p => exact .bind (h p rfl) fun _ _ => .pure _

/-- A part in a field is one of the parts. -/
theorem mem_of_fieldPart? {n : TreeNode} {parts : List Converted} {name : String}
    {part : Converted} (h : part ∈ fieldPart? n parts name) : part ∈ parts := by
  obtain ⟨i, -, hi⟩ := Option.bind_eq_some_iff.1 h
  exact List.mem_of_getElem? hi

/-- An access to a property fails only for what its parts fail for. -/
theorem failsOnlyBy_access {mark : Mark Node} {n : TreeNode} {parts : List Converted}
    {field : String} {computed : Bool} (h : ∀ part ∈ parts, FailsOnlyBy cause part.node) :
    FailsOnlyBy cause (access mark n parts field computed) :=
  .bind (failsOnlyBy_expected fun p hp => h p (mem_of_fieldPart? hp)) fun _ _ =>
    .bind (failsOnlyBy_expected fun p hp => h p (mem_of_fieldPart? hp)) fun _ _ => .pure _

/-- The arguments of a call fail only for what they fail for themselves. -/
theorem failsOnlyBy_callArguments {part : Option Converted}
    (h : ∀ p ∈ part, FailsOnlyBy cause p.node ∧ FailsOnlyBy cause p.inner) :
    FailsOnlyBy cause (callArguments part) := by
  cases part with
  | none => exact .ok _
  | some p =>
    simp only [callArguments]
    split
    · exact (h p rfl).2
    · exact .bind (failsOnlyBy_expected fun q hq => (h q hq).1) fun _ _ => .pure _

/-- The content of a string fails only for its text or for an escape of it. -/
theorem failsOnlyBy_stringContent {n : TreeNode} (htext : FailsOnlyBy cause (n.text source))
    (hvalues : ∀ child ∈ n.children, FailsOnlyBy cause (partValue source child)) :
    FailsOnlyBy cause (stringContent source n) := by
  simp only [stringContent]
  split
  · exact .bind htext fun _ _ => .pure _
  · exact .bind (.mapM fun child hchild => hvalues child (List.mem_of_mem_filter hchild))
      fun _ _ => .pure _

/-- A node is assembled unless its text, a part of its string or one of its children fails. -/
theorem failsOnlyBy_assemble {n : TreeNode} {parts : List Converted}
    (htext : FailsOnlyBy cause (n.text source))
    (hvalues : ∀ child ∈ n.children, FailsOnlyBy cause (partValue source child))
    (hparts : ∀ part ∈ parts, FailsOnlyBy cause part.node ∧ FailsOnlyBy cause part.inner) :
    FailsOnlyBy cause (assemble source offset n parts) := by
  have hcollect := failsOnlyBy_collect fun part hpart => (hparts part hpart).1
  have hraw {f : List Char → Node} :
      FailsOnlyBy cause (n.text source >>= fun raw => pure (f raw)) :=
    .bind htext fun _ _ => .pure _
  unfold assemble
  split
  · exact hraw
  · split
    case h_1 =>
      exact .bind (failsOnlyBy_callArguments fun p hp => hparts p (mem_of_fieldPart? hp)) fun _ _ =>
        .bind (failsOnlyBy_expected fun p hp => (hparts p (mem_of_fieldPart? hp)).1) fun _ _ =>
          .pure _
    case h_2 | h_3 => exact failsOnlyBy_access fun part hpart => (hparts part hpart).1
    case h_4 =>
      refine .bind hcollect fun nodes _ => ?_
      split <;> exact .pure _
    case h_5 => exact .bind (failsOnlyBy_stringContent htext hvalues) fun _ _ => hraw
    case h_6 | h_7 => exact hraw
    case h_8 =>
      exact .bind (.mapM fun part hpart => (hparts part (List.mem_of_mem_filter hpart)).2)
        fun _ _ => .pure _
    case h_9 => exact .pure _
    case h_10 =>
      cases constant? n.kind with
      | some value => exact .pure _
      | none => exact .bind hcollect fun _ _ => .pure _

/-- A tree is converted unless the text of a node or a part of a string fails. -/
theorem failsOnlyBy_convert (n : TreeNode)
    (htext : ∀ m ∈ n.nodes, FailsOnlyBy cause (m.text source))
    (hvalue : ∀ m ∈ n.nodes, FailsOnlyBy cause (partValue source m)) :
    FailsOnlyBy cause (convert source offset n).node ∧
      FailsOnlyBy cause (convert source offset n).inner := by
  induction n using TreeNode.induction with
  | step n ih =>
    have hbelow : ∀ child ∈ n.children, ∀ m ∈ child.nodes, m ∈ n.nodes :=
      fun child hchild m hm => TreeNode.mem_nodes_of_mem_children hchild hm
    have hparts : ∀ part ∈ n.children.map (convert source offset),
        FailsOnlyBy cause part.node ∧ FailsOnlyBy cause part.inner := fun part hpart => by
      obtain ⟨child, hchild, rfl⟩ := List.mem_map.1 hpart
      exact ih child hchild (fun m hm => htext m (hbelow child hchild m hm))
        (fun m hm => hvalue m (hbelow child hchild m hm))
    constructor
    · rw [node_convert]
      split
      · exact (failsOnlyBy_assemble (htext n n.mem_nodes_self)
          (fun child hchild => hvalue child (hbelow child hchild child child.mem_nodes_self))
          hparts).map some
      · exact .ok _
    · rw [inner_convert]
      exact failsOnlyBy_collect fun part hpart => (hparts part hpart).1

/-- Some escape sequence of a tree names a number that is too large to be told that it is no code
point. -/
def HoldsOverflow (source : List UInt8) (n : TreeNode) : Prop :=
  ∃ m ∈ n.nodes, m.kind = "escape_sequence" ∧
    ∃ sequence, m.text source = .ok sequence ∧ Escape.Overflows sequence

/-- What is held below a child is held below the node. -/
theorem HoldsOverflow.of_child {source : List UInt8} {n child : TreeNode}
    (h : HoldsOverflow source child) (hchild : child ∈ n.children) : HoldsOverflow source n := by
  obtain ⟨m, hm, hrest⟩ := h
  exact ⟨m, TreeNode.mem_nodes_of_mem_children hchild hm, hrest⟩

/-- A tree that is aligned with its text is converted unless an escape overflows. -/
theorem failsOnlyBy_overflow {cs : List Char} {n : TreeNode} (haligned : n.IsAligned cs) :
    FailsOnlyBy (fun e => e = .codePointOverflow ∧ HoldsOverflow (Utf8.encode cs) n)
        (convert (Utf8.encode cs) offset n).node ∧
      FailsOnlyBy (fun e => e = .codePointOverflow ∧ HoldsOverflow (Utf8.encode cs) n)
        (convert (Utf8.encode cs) offset n).inner := by
  refine failsOnlyBy_convert n (fun m hm => ?_) (fun m hm => ?_)
  · obtain ⟨part, -, hpart⟩ := haligned.exists_text hm
    exact .of_eq_ok hpart
  · obtain ⟨part, -, hpart⟩ := haligned.exists_text hm
    refine .bind_of_eq_ok hpart ?_
    split
    · rename_i hkind
      intro e he
      obtain ⟨rfl, hoverflows⟩ := Escape.decode_eq_error_iff.1 he
      exact ⟨rfl, m, hm, eq_of_beq hkind, part, hpart, hoverflows⟩
    · exact .pure _

end Failing

section Parsing

variable {g : Grammars} {grammar text : String} {tree : SyntaxTree} (offset : Int)

/-- A script whose tree is known is parsed unless the tree has errors. -/
theorem parse_of_tree (htree : g.parse grammar text = .ok tree) :
    parse g grammar text offset =
      if tree.hasError then .error (.syntaxErrors grammar)
      else (fun body => (Node.program { span := spanOf offset tree.root } body none).linkBelow
        VisitorKeys.default) <$> (convert (Utf8.encodeString text) offset tree.root).inner := by
  rw [parse, htree, map_eq_pure_bind]
  change (if tree.hasError = true then _ else _) = _
  split <;> rfl

/-- A script fails on syntax errors or on an escape that overflows. -/
theorem failsOnlyBy_parse (htree : g.parse grammar text = .ok tree)
    (haligned : tree.root.IsAligned text.toList) :
    FailsOnlyBy (fun e => (e = .syntaxErrors grammar ∧ tree.hasError = true) ∨
      (e = .codePointOverflow ∧ HoldsOverflow (Utf8.encodeString text) tree.root))
      (parse g grammar text offset) := by
  rw [parse_of_tree offset htree]
  split
  · rename_i herror
    exact fun e he => .inl ⟨(Except.error.inj he).symm, herror⟩
  · exact ((failsOnlyBy_overflow haligned).2.map _).imp fun e he => .inr he

/-- The only expression of a tree stands two levels below its root. -/
theorem of_onlyExpression? {root wrapper : TreeNode} (h : onlyExpression? root = some wrapper) :
    ∃ statement ∈ root.children, wrapper ∈ statement.children := by
  unfold onlyExpression? at h
  split at h
  · rename_i statement hroot
    split at h
    · split at h
      · rename_i only hstatement
        split at h
        · obtain rfl := Option.some.inj h
          refine ⟨statement, ?_, ?_⟩
          · exact TreeNode.mem_children_of_mem_namedChildren (hroot ▸ List.mem_cons_self)
          · exact TreeNode.mem_children_of_mem_namedChildren (hstatement ▸ List.mem_cons_self)
        · exact nomatch h
      · exact nomatch h
    · exact nomatch h
  · exact nomatch h

/-- An expression fails only on an escape that overflows; syntax errors leave it without a node. -/
theorem failsOnlyBy_expression (htree : g.parse grammar (parenthesised text) = .ok tree)
    (haligned : tree.root.IsAligned (parenthesised text).toList) :
    FailsOnlyBy (fun e => e = .codePointOverflow ∧
      HoldsOverflow (Utf8.encodeString (parenthesised text)) tree.root)
      (expression g grammar text offset) := by
  unfold expression
  split
  · exact .pure none
  · refine .bind_of_eq_ok htree ?_
    split
    · exact .pure none
    · cases honly : onlyExpression? tree.root with
      | none => exact .pure none
      | some wrapper =>
        obtain ⟨statement, hstatement, hwrapper⟩ := of_onlyExpression? honly
        refine .bind ?_ fun _ _ => .pure _
        exact (failsOnlyBy_overflow ((haligned.child hstatement).child hwrapper)).1.imp
          fun e he => ⟨he.1, (he.2.of_child hwrapper).of_child hstatement⟩

/-- Statements fail only on an escape that overflows; syntax errors leave them without nodes. -/
theorem failsOnlyBy_statements (htree : g.parse grammar text = .ok tree)
    (haligned : tree.root.IsAligned text.toList) :
    FailsOnlyBy (fun e => e = .codePointOverflow ∧
      HoldsOverflow (Utf8.encodeString text) tree.root) (statements g grammar text offset) := by
  unfold statements
  refine .bind_of_eq_ok htree ?_
  split
  · exact .pure none
  · exact .bind (failsOnlyBy_overflow haligned).2 fun _ _ => .pure _

end Parsing

end Script

end TranslationKeys
