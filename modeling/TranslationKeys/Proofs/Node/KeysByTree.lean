import TranslationKeys.Proofs.Node.Parents

/-!
# The keys of a tree by recursion

A walk looks at places: at a node, and through its parent link at the nodes that hold it. In a
finished tree all of this can be said without places and without links. Which keys a node and the
nodes below it contribute depends on the node alone and on whether its two nearest holders are
elements, and of what names.
-/

namespace TranslationKeys

/-- The keys among the answers of the nodes that a walk meets. -/
def gather (answers : List (Except Failure (Option Text))) : Except Failure (List Text) := do
  return (← answers.mapM id).filterMap id

section Gather

variable {first second : List (Except Failure (Option Text))}

/-- The keys of two lists of answers are gathered one list after the other. -/
theorem gather_append :
    gather (first ++ second) = do return (← gather first) ++ (← gather second) := by
  unfold gather
  rw [List.mapM_append]
  cases first.mapM id with
  | error e => rfl
  | ok found =>
    cases second.mapM id with
    | error e => rfl
    | ok rest => exact congrArg Except.ok List.filterMap_append

/-- Lists of answers with the same keys can be exchanged for each other, item by item. -/
theorem gather_flatMap_congr {α β : Type} {f : α → List (Except Failure (Option Text))}
    {g : β → List (Except Failure (Option Text))} {xs : List α} {ys : List β}
    (h : List.Forall₂ (fun x y => gather (f x) = gather (g y)) xs ys) :
    gather (xs.flatMap f) = gather (ys.flatMap g) := by
  induction h with
  | nil => rfl
  | cons hhead _ ih =>
    rw [List.flatMap_cons, List.flatMap_cons, gather_append, gather_append, hhead, ih]

end Gather

namespace Node

/-- The name of an element. -/
def elementName? : Node → Option String
  | element _ name _ _ _ _ => some name
  | _ => none

/-- The key contributed by a plain attribute whose holder is held by an element of the given
name. -/
def pathKeyUnder (element : Option String) (key : Node) (value : Option Node) : Option Text :=
  match key, value with
  | templateName _ name _, some (templateLiteral _ text) =>
    if name == keyAttribute && element.any keyElements.contains && !text.isEmpty then
      some (Text.ofString text)
    else none
  | _, _ => none

/-- The key contributed by a node whose holder is held by an element of the given name. -/
def keyUnder (element : Option String) : Node → Except Failure (Option Text)
  | call _ callee arguments _ => Place.callKey? callee arguments
  | tagAttribute _ directive key value =>
    if directive then Place.directiveKey? key value else .ok (pathKeyUnder element key value)
  | _ => .ok none

/-- A held node is smaller than the node that holds it. -/
theorem sizeOf_lt_of_mem_held {n m : Node} (h : m ∈ n.held) : sizeOf m < sizeOf n := by
  rw [← heldNodes_default] at h
  exact sizeOf_lt_of_mem_heldNodes h

/-- What a node and the nodes below it answer in pre-order, given the names of the elements that
hold the node and its holder. -/
def answers (parent grand : Option String) (n : Node) : List (Except Failure (Option Text)) :=
  n.keyUnder grand :: n.held.attach.flatMap fun ⟨m, _⟩ => answers n.elementName? parent m
termination_by sizeOf n
decreasing_by exact sizeOf_lt_of_mem_held (by assumption)

/-- The answers of a node are its own and those of the nodes it holds. -/
theorem answers_eq (parent grand : Option String) (n : Node) :
    n.answers parent grand =
      n.keyUnder grand :: n.held.flatMap (answers n.elementName? parent) := by
  rw [answers, List.flatMap_subtype (g := answers n.elementName? parent) (fun _ _ => rfl),
    List.unattach_attach]

/-- The keys that a node and the nodes below it contribute. -/
def keysIn (parent grand : Option String) (n : Node) : Except Failure (List Text) :=
  gather (n.answers parent grand)

/-- The keys that the template of a program contributes. -/
def keysInTemplate : Node → Except Failure (List Text)
  | program _ _ (some template) => template.keysIn none none
  | _ => .ok []

/-- A node as it is met in a finished tree: the nodes that it holds are relinked, and all else that
a walk looks at is as it was. -/
structure IsLinkedFrom (m n : Node) : Prop where
  /-- The held nodes are relinked. -/
  held : m.held = n.held.map relinked
  /-- The name of an element stays. -/
  name : m.elementName? = n.elementName?
  /-- The key stays. -/
  key : ∀ element, m.keyUnder element = n.keyUnder element

/-- The key that the value of a translation directive stands for. -/
def valueKey? : Option Node → Except Failure (Option Text)
  | some (container _ (some expression)) => expression.literalKey?
  | _ => .ok none

/-- A directive contributes the key of its value if it is named like the translation directive. -/
theorem directiveKey?_split (mark : Mark Node) (name : Node) (argument : Option Node)
    (modifiers : List Node) (value : Option Node) :
    Place.directiveKey? (directiveKey mark name argument modifiers) value =
      name.namesTranslation >>= fun isNamed => if isNamed then valueKey? value else .ok none := by
  unfold Place.directiveKey? valueKey?
  rfl

/-- Relinking keeps what a node says of the directive it names. -/
theorem namesTranslation_relinked (n : Node) :
    n.relinked.namesTranslation = n.namesTranslation := by
  cases n <;> rfl

/-- Linking keeps the key that the value of a directive stands for. -/
theorem valueKey?_relinked (value : Option Node) :
    valueKey? (value.map relinked) = valueKey? value := by
  cases value with
  | none => rfl
  | some value =>
    cases value with
    | container _ expression =>
      cases expression with
      | none => rfl
      | some expression => exact literalKey?_relinked expression
    | _ => rfl

/-- Linking keeps the key that a directive contributes. -/
theorem directiveKey?_relinked (key : Node) (value : Option Node) :
    Place.directiveKey? key.relinked (value.map relinked) = Place.directiveKey? key value := by
  cases key with
  | directiveKey _ name _ _ =>
    rw [directiveKey?_split, ← valueKey?_relinked, ← namesTranslation_relinked]
    exact directiveKey?_split _ name.relinked _ _ _
  | _ => rfl

/-- Linking keeps the key that a plain attribute contributes. -/
theorem pathKeyUnder_relinked (element : Option String) (key : Node) (value : Option Node) :
    pathKeyUnder element key.relinked (value.map relinked) = pathKeyUnder element key value := by
  cases key with
  | templateName =>
    cases value with
    | none => rfl
    | some value => cases value <;> rfl
  | _ => rfl

/-- An optional held node that the walk enters is relinked. -/
theorem linkMaybe_true (n : Option Node) :
    linkMaybe VisitorKeys.default true n = n.map relinked := by
  cases n <;> rfl

/-- A node whose held nodes are linked is met as it was. -/
theorem isLinkedFrom_linkBelow (n : Node) :
    (n.linkBelow VisitorKeys.default).IsLinkedFrom n where
  held := held_linkBelow n
  name := by cases n <;> rfl
  key element := by
    cases n with
    | call mark callee arguments optional =>
      change Place.callKey? callee.relinked (linkEach VisitorKeys.default true arguments) = _
      rw [linkEach_true, callKey?_relinked]
      rfl
    | tagAttribute mark directive key value =>
      change (if directive then
          Place.directiveKey? key.relinked (linkMaybe VisitorKeys.default true value)
        else .ok (pathKeyUnder element key.relinked
          (linkMaybe VisitorKeys.default true value))) = _
      rw [linkMaybe_true, directiveKey?_relinked, pathKeyUnder_relinked]
      rfl
    | _ => rfl

/-- A node with another mark is met as it was. -/
theorem IsLinkedFrom.withMark {m n : Node} (h : m.IsLinkedFrom n) (mark : Mark Node) :
    (m.withMark mark).IsLinkedFrom n where
  held := by rw [← h.held]; cases m <;> rfl
  name := by rw [← h.name]; cases m <;> rfl
  key element := by rw [← h.key]; cases m <;> rfl

/-- A relinked node is met as it was. -/
theorem isLinkedFrom_relinked (n : Node) : n.relinked.IsLinkedFrom n :=
  (isLinkedFrom_linkBelow n).withMark _

/-- A finished tree is met as it was. -/
theorem isLinkedFrom_linked (n : Node) : n.linked.IsLinkedFrom n where
  held := held_linked n
  name := by cases n with
    | program _ _ template => cases template <;> rfl
    | _ => rfl
  key element := by
    have hkey := (isLinkedFrom_linkBelow n).key element
    cases n with
    | program _ _ template => cases template <;> rfl
    | _ => exact hkey

end Node

namespace Place

/-- The name of the element that holds this place. -/
def holderName? (p : Place) : Option String :=
  p.parent?.bind fun holder => holder.node.elementName?

/-- The element above a place holds its holder. -/
theorem elementNameAbove?_eq (p : Place) :
    p.elementNameAbove? = p.parent?.bind holderName? := by
  unfold elementNameAbove? holderName?
  cases p.parent? with
  | none => rfl
  | some holder =>
    rw [Option.bind_some, Option.bind_some]
    cases holder.parent? with
    | none => rfl
    | some grand =>
      obtain ⟨node, above⟩ := grand
      cases node <;> rfl

/-- The key contributed at a place is that of its node under the element above. -/
theorem key?_eq_keyUnder (p : Place) : p.key? = p.node.keyUnder p.elementNameAbove? := by
  obtain ⟨node, above⟩ := p
  cases node <;> rfl

/-- Under the default visitor keys the places below another one are those of the held nodes. -/
theorem below_default (p : Place) : p.below VisitorKeys.default = p.node.held.map p.down := by
  have hdown : p.below VisitorKeys.default =
      (p.below VisitorKeys.default).map fun q => p.down q.node := by
    conv_lhs => rw [← List.map_id (p.below VisitorKeys.default)]
    exact List.map_congr_left fun q hq => (mem_held_of_mem_below hq).2
  rw [hdown, ← Node.heldNodes_default, ← map_node_inside,
    inside_eq_below VisitorKeys.onlyDown_default, List.map_map]
  rfl

/-- What the places of a walk through a finished tree contribute is what the nodes of the tree
answer. -/
theorem map_key?_preorder {m n : Node} (h : m.IsLinkedFrom n) (above : List Node) :
    (preorder VisitorKeys.default ⟨m, above⟩).map key? =
      n.answers (holderName? ⟨m, above⟩) (elementNameAbove? ⟨m, above⟩) := by
  induction hsize : sizeOf n using Nat.strongRecOn generalizing m n above with
  | _ size ih =>
    have hbelow : ∀ c ∈ n.held, (preorder VisitorKeys.default ⟨c.relinked, m :: above⟩).map key? =
        c.answers n.elementName? (holderName? ⟨m, above⟩) := by
      intro c hc
      have hparent : parent? ⟨c.relinked, m :: above⟩ = some ⟨m, above⟩ := by cases c <;> rfl
      rw [ih (sizeOf c) (hsize ▸ Node.sizeOf_lt_of_mem_held hc) c.isLinkedFrom_relinked _ rfl,
        elementNameAbove?_eq, holderName?, hparent, ← h.name]
      rfl
    rw [preorder_eq, List.map_cons, List.map_flatMap, below_default, h.held, List.map_map,
      List.flatMap_map, Node.answers_eq, key?_eq_keyUnder, h.key]
    exact congrArg _ (List.flatMap_congr hbelow)

/-- The keys along a walk through a finished tree are those of the nodes of the tree. -/
theorem keysAlong_eq_keysIn {m n : Node} (h : m.IsLinkedFrom n) (above : List Node) :
    keysAlong VisitorKeys.default ⟨m, above⟩ =
      n.keysIn (holderName? ⟨m, above⟩) (elementNameAbove? ⟨m, above⟩) := by
  rw [keysAlong_eq VisitorKeys.onlyDown_default, Node.keysIn, gather, ← map_key?_preorder h above,
    List.mapM_map]
  rfl

end Place

namespace Node

/-- Finishing a tree leaves the mark of its root. -/
theorem mark_linked (n : Node) : n.linked.mark = n.mark := by
  cases n with
  | program _ _ template => cases template <;> rfl
  | _ => rfl

/-- A root without a parent has no holder in its finished tree. -/
theorem holderName?_root_linked {n : Node} (h : n.mark.parent = .absent) :
    (Place.root n.linked).holderName? = none ∧ (Place.root n.linked).elementNameAbove? = none := by
  have hroot : (Place.root n.linked).parent? = none := by
    rw [Place.root, Place.parent?, mark_linked, h]
  rw [Place.elementNameAbove?_eq, Place.holderName?, hroot]
  exact ⟨rfl, rfl⟩

/-- The keys along a walk from the root of a finished tree are those of the nodes of the tree. -/
theorem keysAlong_root_linked {n : Node} (h : n.mark.parent = .absent) :
    (Place.root n.linked).keysAlong VisitorKeys.default = n.keysIn none none := by
  obtain ⟨hholder, habove⟩ := holderName?_root_linked h
  rw [Place.root] at hholder habove ⊢
  rw [Place.keysAlong_eq_keysIn n.isLinkedFrom_linked, hholder, habove]

/-- The keys of the template of a finished tree are those of the nodes of the template. -/
theorem templateKeys_linked {n : Node} (h : n.mark.parent = .absent) :
    n.linked.templateKeys = n.keysInTemplate := by
  cases n with
  | program mark body template =>
    cases template with
    | none => rfl
    | some template =>
      have hparent : Place.parent? ⟨template.relinked,
          [(program mark body (some template)).linked]⟩ =
            some (Place.root (program mark body (some template)).linked) := by
        cases template <;> rfl
      refine (Place.keysAlong_eq_keysIn template.isLinkedFrom_relinked
        [(program mark body (some template)).linked]).trans ?_
      rw [Place.elementNameAbove?_eq, Place.holderName?, hparent, Option.bind_some,
        Option.bind_some, (holderName?_root_linked h).1]
      rfl
  | _ => rfl

/-- The keys of a finished tree are those of the template and those of the nodes that are met below
the root, by recursion. -/
theorem keysUnder_linked {n : Node} (h : n.mark.parent = .absent) :
    n.linked.keysUnder .null = do
      let fromTemplate ← n.keysInTemplate
      let fromScript ← n.keysIn none none
      return firstSeen (fromTemplate ++ fromScript) := by
  rw [keysUnder, templateKeys_linked h]
  change (n.keysInTemplate >>= fun fromTemplate =>
    (Place.root n.linked).keysAlong VisitorKeys.default >>= _) = _
  rw [keysAlong_root_linked h]

end Node

end TranslationKeys
