import TranslationKeys.Node.Link
import TranslationKeys.Proofs.Node.Preorder
import Mathlib.Algebra.Order.BigOperators.Group.List
import Mathlib.Algebra.Order.Ring.Nat

/-!
# Linking keeps the order

Linking changes the marks of nodes and nothing else. Under the default visitor keys a linked tree is
walked in the order of the tree before, and what is met is each node of it with its links attached.
The walk that works a stack of places off meets the same nodes.
-/

namespace TranslationKeys

namespace Node

/-- A node and the nodes below it in pre-order. -/
def inOrder (keys : VisitorKeys) (n : Node) : List Node :=
  n :: (n.heldNodes keys).attach.flatMap fun ⟨m, _⟩ => inOrder keys m
termination_by sizeOf n
decreasing_by exact sizeOf_lt_of_mem_heldNodes (by assumption)

/-- The pre-order of a node is the node followed by the pre-orders of the nodes it leads to. -/
theorem inOrder_eq (keys : VisitorKeys) (n : Node) :
    n.inOrder keys = n :: (n.heldNodes keys).flatMap (inOrder keys) := by
  rw [inOrder, List.flatMap_subtype (g := inOrder keys) (fun _ _ => rfl), List.unattach_attach]

/-- The nodes of a pre-order are listed along those that they lead to. -/
theorem isPreOrder_inOrder (keys : VisitorKeys) :
    IsPreOrder sizeOf (heldNodes keys) (inOrder keys) where
  smaller _ _ := sizeOf_lt_of_mem_heldNodes
  unfolds := inOrder_eq keys

/-- A node comes first in its pre-order. -/
theorem mem_inOrder_self (keys : VisitorKeys) (n : Node) : n ∈ n.inOrder keys :=
  (isPreOrder_inOrder keys).mem_self n

/-- What is below a node that another one leads to is below that one. -/
theorem mem_inOrder_of_mem_heldNodes {keys : VisitorKeys} {n m k : Node}
    (hm : m ∈ n.heldNodes keys) (hk : k ∈ m.inOrder keys) : k ∈ n.inOrder keys :=
  (isPreOrder_inOrder keys).mem_of_mem_next hm hk

/-- A node with its links attached, its own included. -/
def relinked (n : Node) : Node :=
  (n.linkBelow VisitorKeys.default).attached

/-- The nodes that a walk under the default visitor keys enters from a node, by its kind. -/
def held : Node → List Node
  | generic _ _ children => children
  | call _ callee arguments _ => callee :: arguments
  | member _ object property _ _ => [object, property]
  | directiveKey _ name argument modifiers => name :: (argument.toList ++ modifiers)
  | container _ expression => expression.toList
  | tagAttribute _ _ key value => key :: value.toList
  | startTag _ attributes _ => attributes
  | element _ _ _ tag children closing => tag :: (children ++ closing.toList)
  | program _ body _ => body
  | identifier .. | literal .. | templateName .. | templateLiteral .. | endTag ..
  | templateText .. => []

/-- The default visitor keys lead to the nodes that are held by kind. -/
theorem heldNodes_default (n : Node) : n.heldNodes VisitorKeys.default = n.held := by
  cases n <;> simp [heldNodes, entryKeys, isGeneric, occupiedFields, tag, VisitorKeys.default,
    List.lookup_cons, reach, parentField, field, fields, held]

/-- Held nodes that the walk enters are relinked one by one. -/
theorem linkEach_true (ns : List Node) :
    linkEach VisitorKeys.default true ns = ns.map relinked := by
  induction ns with
  | nil => rfl
  | cons n ns ih =>
    rw [linkEach, ih]
    rfl

/-- An optional held node that the walk enters is relinked. -/
theorem toList_linkMaybe_true (n : Option Node) :
    (linkMaybe VisitorKeys.default true n).toList = n.toList.map relinked := by
  cases n <;> rfl

/-- Linking a tree relinks the nodes held by its root. -/
theorem held_linkBelow (n : Node) :
    (n.linkBelow VisitorKeys.default).held = n.held.map relinked := by
  cases n with
  | generic _ _ children | startTag _ children _ | program _ children _ =>
    exact linkEach_true children
  | call _ callee arguments _ => exact congrArg (callee.relinked :: ·) (linkEach_true arguments)
  | container _ expression => exact toList_linkMaybe_true expression
  | tagAttribute _ _ key value => exact congrArg (key.relinked :: ·) (toList_linkMaybe_true value)
  | directiveKey _ name argument modifiers =>
    change name.relinked :: ((linkMaybe VisitorKeys.default true argument).toList ++
      linkEach VisitorKeys.default true modifiers) = _
    rw [toList_linkMaybe_true, linkEach_true, ← List.map_append]
    rfl
  | element _ _ _ tag children closing =>
    change tag.relinked :: (linkEach VisitorKeys.default true children ++
      (linkMaybe VisitorKeys.default true closing).toList) = _
    rw [toList_linkMaybe_true, linkEach_true, ← List.map_append]
    rfl
  | _ => rfl

/-- Attaching the link of a node keeps the nodes that it holds. -/
theorem held_attached (n : Node) : n.attached.held = n.held := by
  cases n <;> rfl

/-- The pre-order of a relinked tree is that of the tree, each node relinked. -/
theorem inOrder_relinked (n : Node) :
    n.relinked.inOrder VisitorKeys.default = (n.inOrder VisitorKeys.default).map relinked := by
  induction n using (isPreOrder_inOrder VisitorKeys.default).induction with
  | step n ih =>
    have hheld : ∀ m ∈ n.held, m.relinked.inOrder VisitorKeys.default =
        (m.inOrder VisitorKeys.default).map relinked := heldNodes_default n ▸ ih
    rw [inOrder_eq, inOrder_eq, heldNodes_default, heldNodes_default, relinked, held_attached,
      held_linkBelow, List.flatMap_map, List.map_cons, List.map_flatMap,
      List.flatMap_congr hheld]
    rfl

/-- Relinking keeps the span of a node. -/
theorem span_relinked (n : Node) : n.relinked.mark.span = n.mark.span := by
  cases n <;> rfl

/-- Something holds of a node and of all that a walk under the default visitor keys enters below
it. -/
def Throughout (P : Node → Prop) (n : Node) : Prop :=
  ∀ m ∈ n.inOrder VisitorKeys.default, P m

/-- What holds throughout a tree holds of its root and throughout the held nodes. -/
theorem throughout_iff {P : Node → Prop} {n : Node} :
    n.Throughout P ↔ P n ∧ ∀ m ∈ n.held, m.Throughout P := by
  unfold Throughout
  rw [inOrder_eq, heldNodes_default]
  simp only [List.forall_mem_cons, List.mem_flatMap, forall_exists_index, and_imp]
  exact and_congr_right fun _ => ⟨fun h m hm k hk => h k m hm hk, fun h k m hm hk => h m hm k hk⟩

/-- What linking keeps at a node, it keeps throughout a tree. -/
theorem Throughout.linkBelow {P : Node → Prop}
    (hlink : ∀ n, P n → P (n.linkBelow VisitorKeys.default)) (hattach : ∀ n, P n → P n.attached)
    {n : Node} (h : n.Throughout P) : (n.linkBelow VisitorKeys.default).Throughout P := by
  obtain ⟨hroot, hheld⟩ := throughout_iff.1 h
  refine throughout_iff.2 ⟨hlink n hroot, ?_⟩
  rw [held_linkBelow, List.forall_mem_map]
  intro m hm k hk
  rw [inOrder_relinked] at hk
  obtain ⟨j, hj, rfl⟩ := List.mem_map.1 hk
  exact hattach _ (hlink j (hheld m hm j hj))

end Node

namespace Place

/-- The nodes at the places of a pre-order are the pre-order of the node. -/
theorem map_node_preorder {keys : VisitorKeys} (h : keys.OnlyDown) (p : Place) :
    (p.preorder keys).map Place.node = p.node.inOrder keys := by
  induction p using (isPreOrder_preorder keys).induction with
  | step p ih =>
    rw [preorder_eq, Node.inOrder_eq, List.map_cons, List.map_flatMap, List.flatMap_congr ih,
      ← map_node_inside, inside_eq_below h, List.flatMap_map]

end Place

namespace Walk

/-- With more fuel than it has places below, a place on a stack is worked off in pre-order, and the
rest of the stack after it. -/
theorem runPlaces_cons {keys : VisitorKeys} (h : keys.OnlyDown) (p : Place) (fuel : Nat)
    (rest : List Place) :
    runPlaces keys ((p.preorder keys).length + fuel) (p :: rest) =
      (runPlaces keys fuel rest).map (p.preorder keys ++ ·) := by
  induction p using (Place.isPreOrder_preorder keys).induction generalizing fuel rest with
  | step p ih =>
    -- The places below are worked off one by one, each leaving the fuel of those after it.
    have hbelow (qs : List Place) (hqs : ∀ q ∈ qs, q ∈ p.below keys) (fuel : Nat)
        (rest : List Place) :
        runPlaces keys ((qs.flatMap (Place.preorder keys)).length + fuel) (qs ++ rest) =
          (runPlaces keys fuel rest).map (qs.flatMap (Place.preorder keys) ++ ·) := by
      induction qs with
      | nil => cases hrun : runPlaces keys fuel rest <;> simp [hrun]
      | cons q qs ihqs =>
        rw [List.flatMap_cons, List.length_append, Nat.add_assoc, List.cons_append,
          ih q (hqs q List.mem_cons_self),
          ihqs (fun x hx => hqs x (List.mem_cons_of_mem _ hx)), Option.map_map]
        simp [Function.comp_def]
    rw [Place.preorder_eq, List.length_cons, Nat.add_right_comm, runPlaces,
      Place.children_eq_below h, hbelow _ (fun _ hq => hq)]
    cases runPlaces keys fuel rest <;> simp

/-- A pre-order has at most as many places as a walk has visits. -/
theorem length_preorder_le {keys : VisitorKeys} (h : keys.OnlyDown) (p : Place) :
    (p.preorder keys).length ≤ p.node.visitCount keys := by
  induction p using (Place.isPreOrder_preorder keys).induction with
  | step p ih =>
    have hbelow : ((p.below keys).map fun q => (q.preorder keys).length).sum ≤
        ((p.below keys).map fun q => q.node.visitCount keys).sum := List.sum_le_sum ih
    rw [Place.preorder_eq, List.length_cons, List.length_flatMap, Place.visitCount_node,
      Place.inside_eq_below h]
    omega

/-- Under keys that only go down, the places of a walk are those of the pre-order. -/
theorem places?_eq_some {keys : VisitorKeys} (h : keys.OnlyDown) (p : Place) :
    places? keys p = some (p.preorder keys) := by
  have hrun := runPlaces_cons h p (p.node.visitCount keys - (p.preorder keys).length) []
  rw [Nat.add_sub_cancel' (length_preorder_le h p)] at hrun
  rw [places?, hrun]
  simp [runPlaces]

end Walk

end TranslationKeys
