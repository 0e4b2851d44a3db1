import TranslationKeys.Proofs.Node.Extraction
import TranslationKeys.Proofs.Node.ReadCalls

/-!
# Parents in a finished tree

A finished tree is linked by two walks, one from the root and one from its template. Whatever links
the nodes had before, both attach the link of every node that they enter below the place they start
from, so that it leads to the node that holds it. The template of a program that is not the root is
entered by neither and keeps its links.
-/

namespace TranslationKeys

namespace Place

/-- A walk from a place under the default visitor keys ends and enters the given places, and the
parent link of each of them but the first leads to the place whose child it is. -/
structure IsLinkedWalk (start : Place) (places : List Place) : Prop where
  /-- The walk ends and enters the places. -/
  ends : Walk.places? VisitorKeys.default start = some places
  /-- All of them but the first are children of others. -/
  reached : ∀ p ∈ places, p = start ∨ ∃ holder ∈ places, p ∈ holder.children VisitorKeys.default
  /-- The parent link of a child leads to the place whose child it is. -/
  parents : ∀ p ∈ places, ∀ child ∈ p.children VisitorKeys.default, child.parent? = some p

/-- The links on the way to a place are structural, and what its node holds has been relinked. -/
structure IsAttached (p : Place) : Prop where
  /-- The links on the way are structural. -/
  links : LinksHold (p.node :: p.above)
  /-- The held nodes have been relinked. -/
  held : ∃ nodes : List Node, p.node.held = nodes.map Node.relinked

/-- The place of a node that holds relinked nodes is attached if its links are structural. -/
theorem isAttached_relinked {n : Node} {above : List Node} (h : LinksHold (n.relinked :: above)) :
    IsAttached ⟨n.relinked, above⟩ :=
  ⟨h, n.held, by rw [Node.relinked, Node.held_attached, Node.held_linkBelow]⟩

/-- A place below another one is that of a held node. -/
theorem mem_held_of_mem_below {p q : Place} (h : q ∈ p.below VisitorKeys.default) :
    q.node ∈ p.node.held ∧ q = p.down q.node := by
  obtain ⟨key, -, hdown⟩ := exists_field_of_mem_below h
  refine ⟨?_, hdown⟩
  rw [← Node.heldNodes_default, ← map_node_inside, inside_eq_below VisitorKeys.onlyDown_default]
  exact List.mem_map_of_mem h

/-- What is below an attached place is attached. -/
theorem IsAttached.of_mem_below {p q : Place} (h : p.IsAttached)
    (hq : q ∈ p.below VisitorKeys.default) : q.IsAttached := by
  obtain ⟨hmem, hdown⟩ := mem_held_of_mem_below hq
  obtain ⟨nodes, hnodes⟩ := h.held
  rw [hnodes] at hmem
  obtain ⟨n, -, hn⟩ := List.mem_map.1 hmem
  rw [hdown, ← hn]
  refine isAttached_relinked ⟨?_, h.links⟩
  cases n <;> rfl

/-- The parent link of what is below a place leads to the place if it is attached. -/
theorem IsAttached.parent?_eq {p q : Place} (h : p.IsAttached)
    (hq : q ∈ p.below VisitorKeys.default) : q.parent? = some p := by
  have hlinks := (h.of_mem_below hq).links
  obtain ⟨-, hdown⟩ := mem_held_of_mem_below hq
  rw [hdown] at hlinks ⊢
  exact parent?_eq_of_linksHold hlinks

/-- Every place of the pre-order of an attached place is attached. -/
theorem IsAttached.of_mem_preorder {p : Place} (h : p.IsAttached) :
    ∀ q ∈ p.preorder VisitorKeys.default, q.IsAttached :=
  forall_mem_preorder (fun _ hp _ hq => hp.of_mem_below hq) h

/-- A walk from an attached place is linked. -/
theorem IsAttached.isLinkedWalk {p : Place} (h : p.IsAttached) :
    p.IsLinkedWalk (p.preorder VisitorKeys.default) where
  ends := Walk.places?_eq_some VisitorKeys.onlyDown_default p
  reached q hq := by
    simp only [children_eq_below VisitorKeys.onlyDown_default]
    exact (isPreOrder_preorder _).eq_or_mem_next hq
  parents q hq child hchild := by
    rw [children_eq_below VisitorKeys.onlyDown_default] at hchild
    exact (h.of_mem_preorder q hq).parent?_eq hchild

/-- The opening tag of the element at a place, which has the given name, lists the node at another
place. -/
inductive Lists : Place → String → Place → Prop where
  | intro {mark tagMark : Mark Node} {name rawName : String} {attributes children above : List Node}
      {selfClosing : Bool} {closing : Option Node} {n : Node} (hlisted : n ∈ attributes) :
      Lists ⟨.element mark name rawName (.startTag tagMark attributes selfClosing) children closing,
          above⟩ name
        ⟨n, .startTag tagMark attributes selfClosing ::
          .element mark name rawName (.startTag tagMark attributes selfClosing) children closing ::
          above⟩

/-- What the opening tag of an element lists is two steps below the element. -/
theorem Lists.exists_mem_below {e p : Place} {name : String} (h : Lists e name p) :
    ∃ tag ∈ e.below VisitorKeys.default, p ∈ tag.below VisitorKeys.default := by
  obtain @⟨mark, tagMark, name, rawName, attributes, children, above, selfClosing, closing, n,
    hlisted⟩ := h
  refine ⟨⟨.startTag tagMark attributes selfClosing, .element mark name rawName
    (.startTag tagMark attributes selfClosing) children closing :: above⟩, ?_, ?_⟩
  · simp [below, Node.entryKeys, Node.isGeneric, Node.tag, VisitorKeys.default, List.lookup_cons,
      Node.field, Node.fields, down]
  · simpa [below, Node.entryKeys, Node.isGeneric, Node.tag, VisitorKeys.default, List.lookup_cons,
      Node.field, Node.fields, down] using hlisted

/-- Below an attached element, the element above a listed attribute is the one that lists it. -/
theorem IsAttached.elementNameAbove?_eq {e p : Place} {name : String} (h : e.IsAttached)
    (hlists : Lists e name p) : p.elementNameAbove? = some name := by
  obtain ⟨tag, htag, hp⟩ := hlists.exists_mem_below
  have hlinks := ((h.of_mem_below htag).of_mem_below hp).links
  cases hlists with
  | intro => exact (elementNameAbove?_eq_some_iff hlinks).2 ⟨_, _, _, _, _, _, _, rfl⟩

end Place

namespace Node

/-- The parents in a tree are structural: the root has none, and the walks from the root and from
its template find each node linked to the node whose child it is. The link of the template leads to
the root, and the attributes of an element find its name. -/
structure HasStructuralParents (n : Node) : Prop where
  /-- The root has no parent. -/
  root : n.mark.parent = .absent
  /-- The walk from the root is linked. -/
  script : (Place.root n).IsLinkedWalk ((Place.root n).preorder VisitorKeys.default)
  /-- The walk from the template is linked, and the template is linked to the root. -/
  template : ∀ template ∈ n.field "template_body",
    ((Place.root n).down template).parent? = some (Place.root n) ∧
      ((Place.root n).down template).IsLinkedWalk n.templatePlaces
  /-- An attribute in the template that an element lists finds the name of the element. -/
  names : ∀ e ∈ n.templatePlaces, ∀ name p, Place.Lists e name p →
    p ∈ n.templatePlaces ∧ p.elementNameAbove? = some name

/-- A tree without parent and template whose held nodes have been relinked has structural
parents. -/
theorem hasStructuralParents_of_field_eq_nil {n : Node} (hroot : n.mark.parent = .absent)
    (hheld : ∃ nodes : List Node, n.held = nodes.map relinked)
    (htemplate : n.field "template_body" = []) : n.HasStructuralParents := by
  have hgiven : n.givenParent? = none := by simp [givenParent?, hroot]
  have hplaces : n.templatePlaces = [] := by
    unfold templatePlaces
    split
    · simp [field, fields, List.lookup_cons] at htemplate
    · rfl
  refine ⟨hroot, Place.IsAttached.isLinkedWalk ⟨hgiven, hheld⟩, ?_, ?_⟩
  · simp [htemplate]
  · simp [hplaces]

/-- A program without parent that holds relinked nodes and a relinked template has structural
parents. -/
theorem hasStructuralParents_program {mark : Mark Node} {body : List Node} {template : Node}
    (hroot : mark.parent = .absent) (hheld : ∃ nodes : List Node, body = nodes.map relinked) :
    (program mark body (some template.relinked)).HasStructuralParents := by
  have hgiven : (program mark body (some template.relinked)).givenParent? = none := by
    simp [givenParent?, Node.mark, hroot]
  have hlink : template.relinked.mark.parent = .holder := by cases template <;> rfl
  have hattached : ((Place.root (program mark body (some template.relinked))).down
      template.relinked).IsAttached := Place.isAttached_relinked ⟨hlink, hgiven⟩
  refine ⟨hroot, Place.IsAttached.isLinkedWalk ⟨hgiven, hheld⟩, ?_, ?_⟩
  · intro found hfound
    obtain rfl : found = template.relinked := by
      simpa [field, fields, List.lookup_cons] using hfound
    exact ⟨Place.parent?_eq_of_linksHold hattached.links, hattached.isLinkedWalk⟩
  · intro e he name p hlists
    obtain ⟨tag, htag, hp⟩ := hlists.exists_mem_below
    have hpre := Place.isPreOrder_preorder VisitorKeys.default
    exact ⟨hpre.mem_next_of_mem (hpre.mem_next_of_mem he htag) hp,
      (hattached.of_mem_preorder e he).elementNameAbove?_eq hlists⟩

/-- Linking keeps the mark of the root. -/
theorem mark_linkBelow (keys : VisitorKeys) (n : Node) : (n.linkBelow keys).mark = n.mark := by
  cases n <;> rfl

/-- A finished tree has structural parents unless its root had a parent. -/
theorem hasStructuralParents_linked {n : Node} (h : n.mark.parent = .absent) :
    n.linked.HasStructuralParents := by
  have hroot : (n.linkBelow VisitorKeys.default).mark.parent = .absent := by
    rw [mark_linkBelow, h]
  have hheld : ∃ nodes : List Node, (n.linkBelow VisitorKeys.default).held = nodes.map relinked :=
    ⟨n.held, held_linkBelow n⟩
  unfold linked
  split
  · rename_i mark body template heq
    rw [heq] at hroot hheld
    exact hasStructuralParents_program hroot hheld
  · rename_i hnone
    refine hasStructuralParents_of_field_eq_nil hroot hheld ?_
    generalize n.linkBelow VisitorKeys.default = root at hnone
    cases root with
    | program mark body templateBody =>
      cases templateBody with
      | none => rfl
      | some template => exact absurd rfl (hnone mark body template)
    | _ => rfl

end Node

end TranslationKeys
