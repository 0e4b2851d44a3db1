import TranslationKeys.Proofs.Text.Boundary
import TranslationKeys.Tree.Basic

/-!
# The nodes of a concrete tree

All nodes of a concrete tree in pre-order, which is what "every node of the tree" ranges over, and
the induction that goes from the children of a node to the node. A tree whose nodes start and stop
between characters of a text can be read everywhere: what its nodes span are parts of the text.
-/

namespace TranslationKeys.TreeNode

mutual

/-- A node and the nodes below it in pre-order. -/
def nodes : TreeNode → List TreeNode
  | mk kind start stop isNamed children fields =>
    mk kind start stop isNamed children fields :: nodesOfEach children

/-- The nodes of each of a list of trees, one tree after the other. -/
def nodesOfEach : List TreeNode → List TreeNode
  | [] => []
  | n :: ns => nodes n ++ nodesOfEach ns

end

/-- The nodes of a tree are its root and the nodes of its children. -/
theorem nodes_eq (n : TreeNode) : n.nodes = n :: n.children.flatMap nodes := by
  have heach (ns : List TreeNode) : nodesOfEach ns = ns.flatMap nodes := by
    induction ns with
    | nil => rfl
    | cons n ns ih => rw [nodesOfEach, ih, List.flatMap_cons]
  cases n with
  | mk => rw [nodes, heach]; rfl

/-- A tree holds its root. -/
theorem mem_nodes_self (n : TreeNode) : n ∈ n.nodes := by
  rw [nodes_eq]
  exact List.mem_cons_self

/-- A tree holds what the trees of its children hold. -/
theorem mem_nodes_of_mem_children {n child m : TreeNode} (hchild : child ∈ n.children)
    (hm : m ∈ child.nodes) : m ∈ n.nodes := by
  rw [nodes_eq]
  exact List.mem_cons_of_mem _ (List.mem_flatMap.2 ⟨child, hchild, hm⟩)

/-- A named child is a child. -/
theorem mem_children_of_mem_namedChildren {n child : TreeNode} (h : child ∈ n.namedChildren) :
    child ∈ n.children :=
  (List.mem_filter.1 h).1

/-- A child found by its kind is a named child of one of the kinds. -/
theorem mem_of_firstOfKinds? {n child : TreeNode} {kinds : List String}
    (h : n.firstOfKinds? kinds = some child) :
    child ∈ n.namedChildren ∧ child.kind ∈ kinds :=
  ⟨List.mem_of_find?_eq_some h, by simpa using List.find?_some h⟩

/-- What holds of a node whenever it holds of its children holds of every node. -/
@[elab_as_elim]
theorem induction {motive : TreeNode → Prop}
    (step : ∀ n, (∀ child ∈ n.children, motive child) → motive n) : ∀ n, motive n
  | mk kind start stop isNamed children fields =>
    step (mk kind start stop isNamed children fields) fun child hchild =>
      have hlt : sizeOf child < sizeOf (mk kind start stop isNamed children fields) := by
        have hmem : child ∈ children := hchild
        have := List.sizeOf_lt_of_mem hmem
        simp only [mk.sizeOf_spec]
        omega
      induction step child
termination_by n => sizeOf n
decreasing_by exact hlt

/-- What the tree of a node holds is held by every tree that holds the node. -/
theorem mem_nodes_trans {root n m : TreeNode} (hn : n ∈ root.nodes) (hm : m ∈ n.nodes) :
    m ∈ root.nodes := by
  induction root using induction with
  | step root ih =>
    rw [nodes_eq] at hn
    rcases List.mem_cons.1 hn with rfl | hn
    · exact hm
    · obtain ⟨child, hchild, hn⟩ := List.mem_flatMap.1 hn
      exact mem_nodes_of_mem_children hchild (ih child hchild hn)

/-- A tree that holds a node holds its children. -/
theorem mem_nodes_child {root n child : TreeNode} (hn : n ∈ root.nodes)
    (hchild : child ∈ n.children) : child ∈ root.nodes :=
  mem_nodes_trans hn (mem_nodes_of_mem_children hchild child.mem_nodes_self)

/-- A tree that holds a node holds the child that is found by its kind. -/
theorem mem_nodes_firstOfKinds? {root n child : TreeNode} {kinds : List String}
    (hn : n ∈ root.nodes) (h : n.firstOfKinds? kinds = some child) : child ∈ root.nodes :=
  mem_nodes_child hn (mem_children_of_mem_namedChildren (mem_of_firstOfKinds? h).1)

/-- All nodes of a tree start and stop between characters of a text. -/
def IsAligned (cs : List Char) (n : TreeNode) : Prop :=
  ∀ m ∈ n.nodes, Utf8.IsBoundary cs m.start ∧ Utf8.IsBoundary cs m.stop

instance (cs : List Char) (n : TreeNode) : Decidable (IsAligned cs n) :=
  inferInstanceAs (Decidable (∀ m ∈ n.nodes, _))

/-- What is aligned with a text is so below each of its children. -/
theorem IsAligned.child {cs : List Char} {n child : TreeNode} (h : n.IsAligned cs)
    (hchild : child ∈ n.children) : child.IsAligned cs :=
  fun m hm => h m (mem_nodes_of_mem_children hchild hm)

/-- What lies between two boundaries of a text is read as a part of it. -/
theorem exists_decodeBytes_slice {cs : List Char} {first last : Nat}
    (hfirst : Utf8.IsBoundary cs first) (hlast : Utf8.IsBoundary cs last) :
    ∃ part, part <:+: cs ∧ decodeBytes (Utf8.slice (Utf8.encode cs) first last) = .ok part := by
  obtain ⟨part, hpart, hslice⟩ := Utf8.exists_slice_eq_encode hfirst hlast
  exact ⟨part, hpart, by rw [decodeBytes, hslice, Utf8.decode?_encode]⟩

/-- The text of a node of a tree that is aligned with a text is a part of it. -/
theorem IsAligned.exists_text {cs : List Char} {root n : TreeNode} (h : root.IsAligned cs)
    (hn : n ∈ root.nodes) : ∃ part, part <:+: cs ∧ n.text (Utf8.encode cs) = .ok part :=
  exists_decodeBytes_slice (h n hn).1 (h n hn).2

end TranslationKeys.TreeNode
