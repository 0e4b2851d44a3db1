import TranslationKeys.Proofs.Script.Conversion

/-!
# The calls of a script

Conversion loses and invents no call. The calls that a walk through the program of a script meets
are, one by one and in order, those of its tree, apart from calls in the type arguments of a call or
of an access. Each covers the place of its tree node, and its callee and its arguments are the nodes
that stand in the tree once single parentheses are taken off.
-/

namespace TranslationKeys

namespace Node

/-- The calls among a node and the nodes below it, in pre-order. -/
def calls (n : Node) : List Node :=
  (n.inOrder VisitorKeys.default).filter isCall

/-- The calls of a node are the node, if it is one, and the calls of the nodes it holds. -/
theorem calls_eq (n : Node) : n.calls = (if n.isCall then [n] else []) ++ n.held.flatMap calls := by
  rw [calls, inOrder_eq, heldNodes_default, List.filter_cons, List.filter_flatMap]
  split <;> rfl

/-- Relinking keeps what is a call. -/
theorem isCall_relinked (n : Node) : n.relinked.isCall = n.isCall := by
  cases n <;> rfl

/-- The calls of a relinked node are those of the node, relinked. -/
theorem calls_relinked (n : Node) : n.relinked.calls = n.calls.map relinked := by
  rw [calls, inOrder_relinked, List.filter_map, calls]
  congr 2
  exact funext isCall_relinked

end Node

namespace Script

/-- The kinds whose operands are found by their fields, with these fields in the order of the
source. -/
def operandFields? : String → Option (List String)
  | "call_expression" => some ["function", "arguments"]
  | "member_expression" => some ["object", "property"]
  | "subscript_expression" => some ["object", "index"]
  | _ => none

mutual

/-- The calls of a tree in pre-order, without those that lie in the type arguments of a node of a
kind that skips them. -/
def treeCalls (skips : String → Bool) : TreeNode → List TreeNode
  | .mk kind start stop isNamed children fields =>
    let below := treeCallsOfEach skips (skips kind) children
    if kind == "call_expression" then .mk kind start stop isNamed children fields :: below
    else below

/-- The calls of each of a list of trees, one tree after the other. -/
def treeCallsOfEach (skips : String → Bool) (skipping : Bool) : List TreeNode → List TreeNode
  | [] => []
  | n :: ns =>
    (if skipping && n.kind == "type_arguments" then [] else treeCalls skips n) ++
      treeCallsOfEach skips skipping ns

end

/-- The calls of a tree are the root, if it is one, and the calls of its children. -/
theorem treeCalls_eq (skips : String → Bool) (n : TreeNode) :
    treeCalls skips n = (if n.kind == "call_expression" then [n] else []) ++
      (n.children.filter fun child => !(skips n.kind && child.kind == "type_arguments")).flatMap
        (treeCalls skips) := by
  have heach (skipping : Bool) (ns : List TreeNode) : treeCallsOfEach skips skipping ns =
      (ns.filter fun child => !(skipping && child.kind == "type_arguments")).flatMap
        (treeCalls skips) := by
    induction ns with
    | nil => rfl
    | cons n ns ih =>
      rw [treeCallsOfEach, ih, List.filter_cons]
      by_cases hskip : (skipping && n.kind == "type_arguments") = true
      · simp [hskip]
      · simp [hskip]
  cases n with
  | mk kind start stop isNamed children fields =>
    simp only [treeCalls, heach]
    split <;> simp_all [TreeNode.kind, TreeNode.children]

/-- Whether some node of a tree is a call. -/
def holdsCall (n : TreeNode) : Bool :=
  n.nodes.any (·.kind == "call_expression")

/-- A tree that holds no call has no calls. -/
theorem treeCalls_eq_nil {skips : String → Bool} {n : TreeNode} (h : holdsCall n = false) :
    treeCalls skips n = [] := by
  induction n using TreeNode.induction with
  | step n ih =>
    have hnone : ∀ m ∈ n.nodes, (m.kind == "call_expression") = false := by
      simpa [holdsCall] using h
    have hbelow : ∀ child ∈ n.children, treeCalls skips child = [] := fun child hchild =>
      ih child hchild (by
        simpa [holdsCall] using fun m hm => hnone m (TreeNode.mem_nodes_of_mem_children hchild hm))
    rw [treeCalls_eq, hnone n n.mem_nodes_self]
    exact List.flatMap_eq_nil_iff.2 fun child hchild => hbelow child (List.mem_of_mem_filter hchild)

/-- The kinds of tokens: they hold no calls. -/
def tokenKinds : List String := "optional_chain" :: (skippedKinds ++ leafKinds)

/-- Whether a child of a call or of an access is one of its operands. -/
def isOperand (n : TreeNode) : Bool :=
  isCode n && n.kind != "type_arguments" && n.kind != "optional_chain"

/-- The positions of the children that are operands. -/
def operandPositions (n : TreeNode) : List Nat :=
  (n.children.zipIdx.filter fun child => isOperand child.1).map Prod.snd

/-- What the grammars of scripts make sure of for every node of a tree without errors. -/
structure IsRegular (n : TreeNode) : Prop where
  /-- Punctuation and tokens hold no calls. -/
  tokens : n.named = false ∨ n.kind ∈ tokenKinds → holdsCall n = false
  /-- In a template string only the substituted expressions hold calls. -/
  template : n.kind = "template_string" →
    ∀ child ∈ n.children, isSubstitution child = false → holdsCall child = false
  /-- The operands of a call or of an access are the children that its fields lead to, in order. -/
  operands : ∀ names ∈ operandFields? n.kind,
    names.filterMap (n.fields.lookup ·) = operandPositions n

instance (n : TreeNode) : Decidable (IsRegular n) :=
  decidable_of_iff (_ ∧ _ ∧ _)
    ⟨fun h => ⟨h.1, h.2.1, h.2.2⟩, fun h => ⟨h.tokens, h.template, h.operands⟩⟩

/-- A tree that a grammar of scripts can give: a program all of whose nodes are regular. -/
def IsScriptTree (root : TreeNode) : Prop :=
  root.kind = "program" ∧ ∀ n ∈ root.nodes, IsRegular n

instance (root : TreeNode) : Decidable (IsScriptTree root) :=
  inferInstanceAs (Decidable (_ ∧ ∀ n ∈ root.nodes, _))

/-- The children at the positions of operands are the operands. -/
theorem filterMap_operandPositions (n : TreeNode) :
    (operandPositions n).filterMap (n.children[·]?) = n.children.filter isOperand := by
  have hat : ∀ child ∈ n.children.zipIdx.filter fun child => isOperand child.1,
      n.children[child.2]? = some child.1 := fun child hchild =>
    List.mem_zipIdx_iff_getElem?.1 (List.mem_of_mem_filter hchild)
  calc (operandPositions n).filterMap (n.children[·]?)
      = (n.children.zipIdx.filter fun child => isOperand child.1).map Prod.fst := by
        rw [operandPositions, List.filterMap_map, ← List.filterMap_eq_map]
        exact List.filterMap_congr hat
    _ = n.children.filter isOperand := by
        conv_rhs => rw [← List.zipIdx_map_fst 0 n.children, List.filter_map]
        rfl

/-- The operands of a regular node are the children that its fields lead to, in order. -/
theorem IsRegular.filterMap_child? {n : TreeNode} {names : List String} (h : IsRegular n)
    (hnames : operandFields? n.kind = some names) :
    names.filterMap n.child? = n.children.filter isOperand := by
  rw [← filterMap_operandPositions, ← h.operands names hnames, List.filterMap_filterMap]
  rfl

/-- Type arguments are skipped where operands are found by their fields. -/
def skipsTypes (kind : String) : Bool :=
  (operandFields? kind).isSome

/-- The calls of a tree without those in type arguments of a call or of an access. -/
def keptCalls : TreeNode → List TreeNode :=
  treeCalls skipsTypes

/-- Items that contribute nothing can be left out. -/
theorem flatMap_filter_of_eq_nil {α β : Type} {f : α → List β} {p : α → Bool} {xs : List α}
    (h : ∀ x ∈ xs, p x = false → f x = []) : (xs.filter p).flatMap f = xs.flatMap f := by
  induction xs with
  | nil => rfl
  | cons x xs ih =>
    obtain ⟨hx, hxs⟩ := List.forall_mem_cons.1 h
    rw [List.filter_cons, List.flatMap_cons, ← ih hxs]
    split
    · rw [List.flatMap_cons]
    · rw [hx (Bool.eq_false_of_not_eq_true ‹_›), List.nil_append]

/-- What stands for nothing holds no calls. -/
theorem IsRegular.keptCalls_eq_nil {n : TreeNode} (h : IsRegular n) (hcode : isCode n = false) :
    keptCalls n = [] := by
  refine treeCalls_eq_nil (h.tokens ?_)
  rcases Bool.and_eq_false_iff.1 hcode with hnamed | hskipped
  · exact .inl hnamed
  · have hmem : n.kind ∈ skippedKinds := by simpa using hskipped
    exact .inr (List.mem_cons_of_mem _ (List.mem_append_left _ hmem))

/-- The calls below a node that skips nothing are those of its children. -/
theorem keptCalls_eq_children {n : TreeNode} (hkind : operandFields? n.kind = none) :
    keptCalls n = n.children.flatMap keptCalls := by
  have hcall : (n.kind == "call_expression") = false := by
    refine beq_eq_false_iff_ne.2 fun heq => ?_
    rw [heq] at hkind
    exact nomatch hkind
  have hskips : skipsTypes n.kind = false := by rw [skipsTypes, hkind]; rfl
  rw [keptCalls, treeCalls_eq, hcall, hskips]
  simp

/-- Only the children that stand for nodes have calls. -/
theorem keptCalls_eq_codeChildren {n : TreeNode} (hkind : operandFields? n.kind = none)
    (hchildren : ∀ child ∈ n.children, IsRegular child) :
    keptCalls n = (codeChildren n).flatMap keptCalls := by
  rw [keptCalls_eq_children hkind, codeChildren, flatMap_filter_of_eq_nil fun child hchild =>
    (hchildren child hchild).keptCalls_eq_nil]

/-- All kinds but those of calls and accesses skip nothing. -/
theorem operandFields?_eq_none {kind : String}
    (h : kind ∉ ["call_expression", "member_expression", "subscript_expression"]) :
    operandFields? kind = none := by
  unfold operandFields?
  split <;> simp_all

/-- The child in a field of a call or of an access is an operand, so it stands for a node. -/
theorem IsRegular.isCode_of_child? {n child : TreeNode} {names : List String} {name : String}
    (h : IsRegular n) (hnames : operandFields? n.kind = some names) (hname : name ∈ names)
    (hchild : n.child? name = some child) : isCode child = true := by
  have hmem : child ∈ names.filterMap n.child? := List.mem_filterMap.2 ⟨name, hname, hchild⟩
  rw [h.filterMap_child? hnames] at hmem
  have hoperand := (List.mem_filter.1 hmem).2
  simp only [isOperand, Bool.and_eq_true] at hoperand
  exact hoperand.1.1

/-- The calls below a call or an access are those of its operands. -/
theorem keptCalls_eq_of_operands {n : TreeNode} {first second : String} (hregular : IsRegular n)
    (hnames : operandFields? n.kind = some [first, second])
    (hchildren : ∀ child ∈ n.children, IsRegular child) :
    keptCalls n = (if n.kind == "call_expression" then [n] else []) ++
      ((n.child? first).toList ++ (n.child? second).toList).flatMap keptCalls := by
  have hskips : skipsTypes n.kind = true := by rw [skipsTypes, hnames]; rfl
  have hoperands :
      (n.children.filter fun child => child.kind != "type_arguments").filter isOperand =
        n.children.filter isOperand := by
    rw [List.filter_filter]
    refine List.filter_congr fun child _ => ?_
    simp only [isOperand]
    cases child.kind != "type_arguments" <;> simp
  have hrest : ∀ child ∈ n.children.filter fun child => child.kind != "type_arguments",
      isOperand child = false → keptCalls child = [] := fun child hchild hoperand => by
    obtain ⟨hmem, htypes⟩ := List.mem_filter.1 hchild
    by_cases hcode : isCode child = true
    · have hchain : child.kind = "optional_chain" := by
        simpa [isOperand, htypes, hcode] using hoperand
      exact treeCalls_eq_nil ((hchildren child hmem).tokens (.inr (hchain ▸ List.mem_cons_self)))
    · exact (hchildren child hmem).keptCalls_eq_nil (Bool.eq_false_of_not_eq_true hcode)
  have hfields : (n.child? first).toList ++ (n.child? second).toList =
      [first, second].filterMap n.child? := by
    cases hfirst : n.child? first <;> cases hsecond : n.child? second <;> simp [hfirst, hsecond]
  rw [hfields, hregular.filterMap_child? hnames, ← hoperands, flatMap_filter_of_eq_nil hrest,
    keptCalls, treeCalls_eq, hskips]
  simp [bne]

/-- What stands in a tree node once parentheses around exactly one node are taken off. -/
inductive Encloses : TreeNode → TreeNode → Prop where
  /-- A node that is no such parentheses. -/
  | innermost {n : TreeNode}
      (h : n.kind = "parenthesized_expression" → ∀ only, codeChildren n ≠ [only]) : Encloses n n
  /-- One pair of parentheses. -/
  | parentheses {n only inner : TreeNode} (hkind : n.kind = "parenthesized_expression")
      (honly : codeChildren n = [only]) (hinner : Encloses only inner) : Encloses n inner

section Correspondence

variable (source : List UInt8) (offset : Int)

/-- A node of a finished program is what stands in a tree node: it is made of what the tree node
encloses, and covers that. -/
def Shows (n : TreeNode) (node : Node) : Prop :=
  ∃ inner made, Encloses n inner ∧ (convert source offset inner).node = .ok (some made) ∧
    made.mark.span = spanOf offset inner ∧ node = made.relinked

/-- The tree nodes of a call's arguments; a tagged template is the only argument of its tag. -/
def argumentTrees (n : TreeNode) : List TreeNode :=
  match n.child? "arguments" with
  | none => []
  | some list => if list.kind == "arguments" then codeChildren list else [list]

/-- A node of a finished program is the call of a tree node: it covers the tree node, and its callee
and its arguments are what stands there in the tree. -/
def IsCallOf (n : TreeNode) (node : Node) : Prop :=
  ∃ mark callee arguments optional, node = .call mark callee arguments optional ∧
    mark.span = spanOf offset n ∧
    (∀ function ∈ n.child? "function", Shows source offset function callee) ∧
    List.Forall₂ (Shows source offset) (argumentTrees n) arguments

/-- The calls of nodes are, one by one and in order, those of tree nodes. -/
def CallsMatch (ns : List TreeNode) (nodes : List Node) : Prop :=
  List.Forall₂ (fun n call => IsCallOf source offset n call.relinked) (ns.flatMap keptCalls)
    (nodes.flatMap Node.calls)

end Correspondence

section Conversion

variable {source : List UInt8} {offset : Int}

/-- What a tree node becomes is what the tree node that it encloses becomes, and covers that. -/
theorem exists_encloses_of_node_convert {n : TreeNode} {node : Node}
    (h : (convert source offset n).node = .ok (some node)) :
    ∃ inner, Encloses n inner ∧ (convert source offset inner).node = .ok (some node) ∧
      node.mark.span = spanOf offset inner := by
  induction n using TreeNode.induction with
  | step n ih =>
    have hother (hspan : node.mark.span = spanOf offset n)
        (hkind : n.kind ≠ "parenthesized_expression") : ∃ inner, Encloses n inner ∧
          (convert source offset inner).node = .ok (some node) ∧
          node.mark.span = spanOf offset inner :=
      ⟨n, .innermost (isBare_of_ne hkind), h, hspan⟩
    cases becomes_of_node_convert h with
    | leaf hkind _ hspan _ =>
      refine hother hspan fun heq => ?_
      rw [heq] at hkind
      exact absurd hkind (by decide)
    | call hkind | member hkind | subscript hkind | template hkind =>
      exact hother rfl (by rw [hkind]; decide)
    | unwrapped hkind hinner =>
      obtain ⟨only, hcode, honly⟩ := exists_codeChildren_eq hinner
      have hchild : only ∈ n.children :=
        List.mem_of_mem_filter (show only ∈ codeChildren n from hcode ▸ List.mem_cons_self)
      obtain ⟨inner, hencloses, hmade⟩ := ih only hchild honly
      exact ⟨inner, .parentheses hkind hcode hencloses, hmade⟩
    | generic _ _ hmany hinner =>
      refine ⟨n, .innermost fun hparentheses only honly => ?_, h, rfl⟩
      have hnodes := inner_convert_eq_ok_iff.1 hinner
      rw [honly] at hnodes
      obtain ⟨made, rest, -, hrest, rfl⟩ := List.forall₂_cons_left_iff.1 hnodes
      rw [List.forall₂_nil_left_iff.1 hrest] at hmany
      exact hmany hparentheses made rfl

/-- Whatever a tree node becomes is what stands in it. -/
theorem shows_of_node_convert {n : TreeNode} {node : Node}
    (h : (convert source offset n).node = .ok (some node)) :
    Shows source offset n node.relinked := by
  obtain ⟨inner, hencloses, hmade, hspan⟩ := exists_encloses_of_node_convert h
  exact ⟨inner, node, hencloses, hmade, hspan, rfl⟩

/-- Where there are no nodes there are no calls to match. -/
theorem CallsMatch.nil : CallsMatch source offset [] [] :=
  List.Forall₂.nil

/-- Calls that match in two parts of a list match in the whole. -/
theorem CallsMatch.append {ns ns' : List TreeNode} {nodes nodes' : List Node}
    (h : CallsMatch source offset ns nodes) (h' : CallsMatch source offset ns' nodes') :
    CallsMatch source offset (ns ++ ns') (nodes ++ nodes') := by
  unfold CallsMatch
  rw [List.flatMap_append, List.flatMap_append]
  exact List.rel_append h h'

/-- Calls match if they do part by part. -/
theorem callsMatch_flatten {ns : List TreeNode} {held : List (List Node)}
    (h : List.Forall₂ (fun n nodes => CallsMatch source offset [n] nodes) ns held) :
    CallsMatch source offset ns held.flatten := by
  induction h with
  | nil => exact .nil
  | cons hfirst _ ih => exact hfirst.append ih

/-- Calls match if they do node by node. -/
theorem callsMatch_of_forall₂ {ns : List TreeNode} {nodes : List Node}
    (h : List.Forall₂ (fun n node => CallsMatch source offset [n] [node]) ns nodes) :
    CallsMatch source offset ns nodes := by
  rw [← List.flatMap_singleton' nodes]
  exact callsMatch_flatten (List.forall₂_map_right_iff.2 h)

/-- A tree node has the calls of the tree nodes that its calls are those of. -/
theorem callsMatch_singleton {n : TreeNode} {ns : List TreeNode} {nodes : List Node}
    (hn : keptCalls n = ns.flatMap keptCalls) (h : CallsMatch source offset ns nodes) :
    CallsMatch source offset [n] nodes := by
  unfold CallsMatch at h ⊢
  rw [List.flatMap_singleton, hn]
  exact h

/-- A node that is no call has the calls of what it holds. -/
theorem callsMatch_of_held {n : TreeNode} {node : Node} {ns : List TreeNode} {nodes : List Node}
    (hn : keptCalls n = ns.flatMap keptCalls) (hcall : node.isCall = false)
    (hheld : node.held = nodes) (h : CallsMatch source offset ns nodes) :
    CallsMatch source offset [n] [node] := by
  have hcalls : node.calls = nodes.flatMap Node.calls := by
    rw [Node.calls_eq, hcall, hheld]
    rfl
  have hsingle := callsMatch_singleton hn h
  unfold CallsMatch at hsingle ⊢
  rw [← hcalls, ← List.flatMap_singleton Node.calls] at hsingle
  exact hsingle

/-- What the child in a field becomes has the calls of the child. -/
theorem callsMatch_of_isOperand {child : Option TreeNode} {node : Node}
    (h : IsOperand source offset child node) (hregular : ∀ n ∈ child, IsRegular n)
    (hmatch : ∀ n ∈ child, ∀ made, (convert source offset n).node = .ok (some made) →
      CallsMatch source offset [n] [made]) :
    CallsMatch source offset child.toList [node] := by
  cases h with
  | @code n _ hnode => exact hmatch n rfl node hnode
  | missing hnone =>
    have hcalls : child.toList.flatMap keptCalls = [] :=
      List.flatMap_eq_nil_iff.2 fun n hn =>
        have hn := Option.mem_toList.1 hn
        (hregular n hn).keptCalls_eq_nil (hnone n hn)
    unfold CallsMatch
    rw [hcalls, List.flatMap_singleton, Node.calls_eq]
    exact .nil

/-- The arguments of a call have the calls of their list. -/
theorem callsMatch_of_areArguments {child : Option TreeNode} {nodes : List Node}
    (h : AreArguments source offset child nodes)
    (hregular : ∀ n ∈ child, ∀ m ∈ n.nodes, IsRegular m)
    (hmatch : ∀ n ∈ child,
      (∀ made, (convert source offset n).node = .ok (some made) →
        CallsMatch source offset [n] [made]) ∧
      ∀ nodes, (convert source offset n).inner = .ok nodes →
        CallsMatch source offset (codeChildren n) nodes) :
    CallsMatch source offset child.toList nodes := by
  cases h with
  | absent => exact .nil
  | @list n _ hkind hinner =>
    have hcalls : keptCalls n = (codeChildren n).flatMap keptCalls :=
      keptCalls_eq_codeChildren (by rw [hkind]; rfl) fun m hm =>
        hregular n rfl m (TreeNode.mem_nodes_of_mem_children hm m.mem_nodes_self)
    exact callsMatch_singleton hcalls ((hmatch n rfl).2 nodes hinner)
  | @template n _ _ hnode =>
    exact callsMatch_of_isOperand hnode (fun m hm => hregular m hm m m.mem_nodes_self)
      fun m hm => (hmatch m hm).1

/-- A callee that is found by its field is what stands there. -/
theorem shows_of_isOperand {n : TreeNode} {node : Node} (hcode : isCode n = true)
    (h : IsOperand source offset (some n) node) : Shows source offset n node.relinked := by
  cases h with
  | code hnode => exact shows_of_node_convert hnode
  | missing hnone => exact absurd hcode (by rw [hnone n rfl]; decide)

/-- The arguments of a call are what stands in the tree nodes of its arguments. -/
theorem forall₂_shows_of_areArguments {n : TreeNode} {arguments : List Node}
    (hcode : ∀ child ∈ n.child? "arguments", isCode child = true)
    (h : AreArguments source offset (n.child? "arguments") arguments) :
    List.Forall₂ (Shows source offset) (argumentTrees n) (arguments.map Node.relinked) := by
  unfold argumentTrees
  generalize n.child? "arguments" = child at h hcode
  cases h with
  | absent => exact .nil
  | list hkind hinner =>
    simp only [hkind, beq_self_eq_true, if_true, List.forall₂_map_right_iff]
    exact (inner_convert_eq_ok_iff.1 hinner).imp fun _ _ hnode => shows_of_node_convert hnode
  | @template list _ hkind hnode =>
    simp only [beq_eq_false_iff_ne.2 hkind, Bool.false_eq_true, if_false]
    exact .cons (shows_of_isOperand (hcode list rfl) hnode) .nil

/-- The node that a regular tree node becomes, and the nodes that its children become, have the
calls of the tree. -/
theorem callsMatch_of_convert (n : TreeNode) (hregular : ∀ m ∈ n.nodes, IsRegular m) :
    (∀ node, (convert source offset n).node = .ok (some node) →
      CallsMatch source offset [n] [node]) ∧
    ∀ nodes, (convert source offset n).inner = .ok nodes →
      CallsMatch source offset (codeChildren n) nodes := by
  induction n using TreeNode.induction with
  | step n ih =>
    have hbelow : ∀ child ∈ n.children, ∀ m ∈ child.nodes, IsRegular m :=
      fun child hchild m hm => hregular m (TreeNode.mem_nodes_of_mem_children hchild hm)
    have hchildren : ∀ child ∈ n.children, IsRegular child :=
      fun child hchild => hbelow child hchild child child.mem_nodes_self
    have hself : IsRegular n := hregular n n.mem_nodes_self
    have hinside : ∀ nodes, (convert source offset n).inner = .ok nodes →
        CallsMatch source offset (codeChildren n) nodes := fun nodes hinner =>
      callsMatch_of_forall₂ <| forall₂_imp_of_mem (fun child hchild node _ hnode =>
        have hchild := List.mem_of_mem_filter hchild
        (ih child hchild (hbelow child hchild)).1 node hnode) (inner_convert_eq_ok_iff.1 hinner)
    have hoperand {name : String} {node : Node}
        (hnode : IsOperand source offset (n.child? name) node) :
        CallsMatch source offset (n.child? name).toList [node] :=
      callsMatch_of_isOperand hnode
        (fun child hchild => hchildren child (TreeNode.mem_children_of_child? hchild))
        fun child hchild =>
          have hchild := TreeNode.mem_children_of_child? hchild
          (ih child hchild (hbelow child hchild)).1
    refine ⟨fun node hnode => ?_, hinside⟩
    cases becomes_of_node_convert hnode with
    | leaf hkind hheld _ hcall =>
      have hcalls : keptCalls n = [].flatMap keptCalls := treeCalls_eq_nil
        (hself.tokens (.inr (List.mem_cons_of_mem _ (List.mem_append_right _ hkind))))
      exact callsMatch_of_held hcalls hcall hheld .nil
    | @call callee arguments optional hkind harguments hcallee =>
      have hnames : operandFields? n.kind = some ["function", "arguments"] := by rw [hkind]; rfl
      have hcode {name : String} (hname : name ∈ ["function", "arguments"]) :
          ∀ child ∈ n.child? name, isCode child = true :=
        fun child hchild => hself.isCode_of_child? hnames hname hchild
      have hcall : IsCallOf source offset n
          (Node.call { span := spanOf offset n } callee arguments optional).relinked :=
        ⟨_, _, _, _, congrArg (Node.call _ _ · _) (Node.linkEach_true arguments), rfl,
          fun function hfunction => shows_of_isOperand (hcode (by simp) function hfunction)
            (hfunction ▸ hcallee),
          forall₂_shows_of_areArguments (hcode (by simp)) harguments⟩
      have hparts := (hoperand hcallee).append <| callsMatch_of_areArguments harguments
        (fun child hchild => hbelow child (TreeNode.mem_children_of_child? hchild))
        fun child hchild =>
          have hchild := TreeNode.mem_children_of_child? hchild
          ih child hchild (hbelow child hchild)
      unfold CallsMatch at hparts ⊢
      rw [List.flatMap_singleton, List.flatMap_singleton,
        keptCalls_eq_of_operands hself hnames hchildren, hkind, Node.calls_eq]
      exact .cons hcall hparts
    | member hkind hobject hproperty =>
      have hnames : operandFields? n.kind = some ["object", "property"] := by rw [hkind]; rfl
      refine callsMatch_of_held ?_ rfl rfl ((hoperand hobject).append (hoperand hproperty))
      rw [keptCalls_eq_of_operands hself hnames hchildren, hkind]
      rfl
    | subscript hkind hobject hproperty =>
      have hnames : operandFields? n.kind = some ["object", "index"] := by rw [hkind]; rfl
      refine callsMatch_of_held ?_ rfl rfl ((hoperand hobject).append (hoperand hproperty))
      rw [keptCalls_eq_of_operands hself hnames hchildren, hkind]
      rfl
    | unwrapped hkind hinner =>
      exact callsMatch_singleton (keptCalls_eq_codeChildren (by rw [hkind]; rfl) hchildren)
        (hinside _ hinner)
    | template hkind hheld =>
      have hcalls : keptCalls n = (n.children.filter isSubstitution).flatMap keptCalls := by
        rw [keptCalls_eq_children (by rw [hkind]; rfl)]
        exact (flatMap_filter_of_eq_nil fun child hchild hother =>
          treeCalls_eq_nil (hself.template hkind child hchild hother)).symm
      refine callsMatch_of_held hcalls rfl rfl (callsMatch_flatten ?_)
      refine forall₂_imp_of_mem (fun child hchild nodes _ hinner => ?_) hheld
      obtain ⟨hchild, hsubstitution⟩ := List.mem_filter.1 hchild
      have hsubstitution : child.kind = "template_substitution" := by
        simpa using (Bool.and_eq_true_iff.1 hsubstitution).2
      refine callsMatch_singleton (keptCalls_eq_codeChildren (by rw [hsubstitution]; rfl)
        fun m hm => ?_) ((ih child hchild (hbelow child hchild)).2 nodes hinner)
      exact hbelow child hchild m (TreeNode.mem_nodes_of_mem_children hm m.mem_nodes_self)
    | generic _ hkind _ hinner =>
      have hfields : operandFields? n.kind = none := operandFields?_eq_none (by simp_all)
      exact callsMatch_of_held (keptCalls_eq_codeChildren hfields hchildren) rfl rfl
        (hinside _ hinner)

end Conversion

/-- The walk through a finished program meets the calls of its statements, relinked, in order. -/
theorem calls_linkBelow_program (mark : Mark Node) (body : List Node) :
    ((Node.program mark body none).linkBelow VisitorKeys.default).calls =
      (body.flatMap Node.calls).map Node.relinked := by
  rw [Node.calls_eq, Node.held_linkBelow, List.flatMap_map, List.map_flatMap]
  exact List.flatMap_congr fun n _ => n.calls_relinked

/-- Conversion loses and invents no call. A script without syntax errors whose tree is regular and
aligned with its text, and in which no escape overflows, is parsed; and the calls that the walk
through its program meets are, one by one and in order, those of its tree, apart from calls in the
type arguments of calls and accesses. -/
theorem exists_parse_forall₂_calls {g : Grammars} {grammar text : String} {tree : SyntaxTree}
    (offset : Int) (htree : g.parse grammar text = .ok tree) (herror : tree.hasError = false)
    (hscript : IsScriptTree tree.root) (haligned : tree.root.IsAligned text.toList)
    (hescapes : ¬ HoldsOverflow (Utf8.encodeString text) tree.root) :
    ∃ program places, parse g grammar text offset = .ok program ∧
      Walk.places? VisitorKeys.default (Place.root program) = some places ∧
      List.Forall₂ (IsCallOf (Utf8.encodeString text) offset) (keptCalls tree.root)
        ((places.map Place.node).filter Node.isCall) := by
  obtain ⟨hkind, hregular⟩ := hscript
  obtain ⟨body, hbody⟩ : ∃ body,
      (convert (Utf8.encodeString text) offset tree.root).inner = .ok body :=
    (failsOnlyBy_overflow haligned).2.exists_ok fun e he => hescapes he.2
  have hparse : parse g grammar text offset = .ok ((Node.program
      { span := spanOf offset tree.root } body none).linkBelow VisitorKeys.default) := by
    rw [parse_of_tree offset htree, herror, hbody]
    rfl
  refine ⟨_, _, hparse, Walk.places?_eq_some VisitorKeys.onlyDown_default _, ?_⟩
  rw [Place.map_node_preorder VisitorKeys.onlyDown_default]
  have hcalls := keptCalls_eq_codeChildren (n := tree.root) (by rw [hkind]; rfl) fun child hchild =>
    hregular child (TreeNode.mem_nodes_of_mem_children hchild child.mem_nodes_self)
  have hmatch := (callsMatch_of_convert tree.root hregular).2 body hbody
  rw [CallsMatch, ← hcalls, ← List.forall₂_map_right_iff, ← calls_linkBelow_program] at hmatch
  exact hmatch

/-- Grammars that know one tree. -/
def grammarsOf (tree : SyntaxTree) : Grammars where
  installed _ := true
  tree? _ _ := some tree

/-- A script with a call in parentheses, an argument in two of them, and a call as an argument. -/
def sampleCalls : String := "(t)(((\"a\")), u.v(1))"

/-- The tree of the sample. -/
def sampleCallsTree : SyntaxTree where
  root :=
    .mk "program" 0 20 true
      [.mk "expression_statement" 0 20 true
        [.mk "call_expression" 0 20 true
          [.mk "parenthesized_expression" 0 3 true [.mk "identifier" 1 2 true [] []] [],
            .mk "arguments" 3 20 true
              [.mk "parenthesized_expression" 4 11 true
                [.mk "parenthesized_expression" 5 10 true
                  [.mk "string" 6 9 true [.mk "string_fragment" 7 8 true [] []] []] []] [],
                .mk "call_expression" 13 19 true
                  [.mk "member_expression" 13 16 true
                    [.mk "identifier" 13 14 true [] [], .mk "property_identifier" 15 16 true [] []]
                    [("object", 0), ("property", 1)],
                    .mk "arguments" 16 19 true [.mk "number" 17 18 true [] []] []]
                  [("function", 0), ("arguments", 1)]] []]
          [("function", 0), ("arguments", 1)]] []] []
  hasError := false

/-- The two calls of the sample are met in its program, whatever its place in a document. -/
theorem exists_parse_forall₂_sampleCalls :
    IsScriptTree sampleCallsTree.root ∧ sampleCallsTree.root.IsAligned sampleCalls.toList ∧
      ¬ HoldsOverflow (Utf8.encodeString sampleCalls) sampleCallsTree.root ∧
      ∃ program places,
        parse (grammarsOf sampleCallsTree) Grammar.javascript sampleCalls 5 = .ok program ∧
        Walk.places? VisitorKeys.default (Place.root program) = some places ∧
        List.Forall₂ (IsCallOf (Utf8.encodeString sampleCalls) 5) (keptCalls sampleCallsTree.root)
          ((places.map Place.node).filter Node.isCall) := by
  have hscript : IsScriptTree sampleCallsTree.root := by decide
  have haligned : sampleCallsTree.root.IsAligned sampleCalls.toList := by decide +kernel
  have hplain : ∀ n ∈ sampleCallsTree.root.nodes, n.kind ≠ "escape_sequence" := by decide
  have hescapes : ¬ HoldsOverflow (Utf8.encodeString sampleCalls) sampleCallsTree.root :=
    fun ⟨n, hn, hkind, _⟩ => hplain n hn hkind
  exact ⟨hscript, haligned, hescapes,
    exists_parse_forall₂_calls 5 rfl rfl hscript haligned hescapes⟩

/-- A script with a call in the type arguments of an object that is made. -/
def sampleTypes : String := "new F<typeof t(\"x\")>()"

/-- The tree of the sample. -/
def sampleTypesTree : SyntaxTree where
  root :=
    .mk "program" 0 22 true
      [.mk "expression_statement" 0 22 true
        [.mk "new_expression" 0 22 true
          [.mk "identifier" 4 5 true [] [],
            .mk "type_arguments" 5 20 true
              [.mk "type_query" 6 19 true
                [.mk "call_expression" 13 19 true
                  [.mk "identifier" 13 14 true [] [],
                    .mk "arguments" 14 19 true
                      [.mk "string" 15 18 true [.mk "string_fragment" 16 17 true [] []] []] []]
                  [("function", 0), ("arguments", 1)]] []] [],
            .mk "arguments" 20 22 true [] []]
          [("constructor", 0), ("type_arguments", 1), ("arguments", 2)]] []] []
  hasError := false

/-- The program of the sample. -/
def sampleTypesProgram : Node :=
  (Node.program { span := Span.bytes 0 22 }
    [.generic { span := Span.bytes 0 22 } "expression_statement"
      [.generic { span := Span.bytes 0 22 } "new_expression"
        [.identifier { span := Span.bytes 4 5 } "F",
          .generic { span := Span.bytes 5 20 } "type_arguments"
            [.generic { span := Span.bytes 6 19 } "type_query"
              [.call { span := Span.bytes 13 19 } (.identifier { span := Span.bytes 13 14 } "t")
                [.literal { span := Span.bytes 15 18 } (.text (Text.ofString "x")) "\"x\""]
                false]],
          .generic { span := Span.bytes 20 22 } "arguments" []]]] none).linkBelow
    VisitorKeys.default

/-- Calls in type arguments are not lost everywhere: the sample has no call outside of them, and the
walk through its program meets one. -/
theorem not_forall₂_calls_outside_typeArguments :
    IsScriptTree sampleTypesTree.root ∧ sampleTypesTree.root.IsAligned sampleTypes.toList ∧
      parse (grammarsOf sampleTypesTree) Grammar.typescript sampleTypes 0 =
        .ok sampleTypesProgram ∧
      ∃ places, Walk.places? VisitorKeys.default (Place.root sampleTypesProgram) = some places ∧
        ¬ List.Forall₂ (IsCallOf (Utf8.encodeString sampleTypes) 0)
          (treeCalls (fun _ => true) sampleTypesTree.root)
          ((places.map Place.node).filter Node.isCall) := by
  have hscript : IsScriptTree sampleTypesTree.root := by decide
  have haligned : sampleTypesTree.root.IsAligned sampleTypes.toList := by decide +kernel
  have hparse : parse (grammarsOf sampleTypesTree) Grammar.typescript sampleTypes 0 =
      .ok sampleTypesProgram := rfl
  refine ⟨hscript, haligned, hparse, _, Walk.places?_eq_some VisitorKeys.onlyDown_default _, ?_⟩
  rw [Place.map_node_preorder VisitorKeys.onlyDown_default]
  have hcalls : sampleTypesProgram.calls ≠ [] := by
    rw [sampleTypesProgram, calls_linkBelow_program]
    simp [Node.calls_eq, Node.held, Node.isCall]
  exact fun hmatch => hcalls (List.forall₂_nil_left_iff.1 hmatch)

end Script

end TranslationKeys
