import TranslationKeys.Node.Basic

/-!
# The shape of a tree

The type of nodes lets a field hold nodes of any kind and a parent link lead anywhere. What trees
are meant to look like is said here, once for a node and then everywhere in a tree: its fields hold
the kinds that are declared for them, and the nodes it holds are linked to it.
-/

namespace TranslationKeys

/-- A value that a script can write down as one token, with integers that have a text. -/
def Scalar.IsToken : Scalar → Prop
  | .int i => i.natAbs < Nat.pow 10 Integer.maxDigits
  | .other _ => False
  | _ => True

/-- Every token has a text. -/
theorem Scalar.IsToken.exists_scriptText {value : Scalar} (h : value.IsToken) :
    ∃ text, value.scriptText = .ok text := by
  cases value with
  | int i =>
    rw [IsToken] at h
    have htext : Integer.text? i = some (String.ofList (Integer.digitsOf i)) := by
      rw [Integer.text?]
      exact if_pos h
    refine ⟨Text.ofString (String.ofList (Integer.digitsOf i)), ?_⟩
    unfold scriptText
    simp only [htext]
  | other => exact absurd h id
  | null | bool | float | text => exact ⟨_, rfl⟩

namespace Node

/-- What a predicate on nodes says of a node and of all nodes that its fields hold, at any depth. -/
inductive Everywhere (P : Node → Prop) : Node → Prop where
  /-- The predicate holds here and everywhere in the nodes held by some field. -/
  | intro {n : Node} (here : P n)
      (held : ∀ entry ∈ n.fields, ∀ m ∈ entry.2, Everywhere P m) : Everywhere P n

/-- What holds everywhere in a tree holds of its root. -/
theorem Everywhere.here {P : Node → Prop} {n : Node} (h : n.Everywhere P) : P n := by
  cases h with
  | intro here _ => exact here

/-- What holds everywhere in a tree holds everywhere in a node that one of its fields holds. -/
theorem Everywhere.of_mem_field {P : Node → Prop} {n m : Node} {key : String}
    (h : n.Everywhere P) (hm : m ∈ n.field key) : m.Everywhere P := by
  cases h with
  | intro _ held =>
    obtain ⟨nodes, hfield, hmem⟩ := mem_fields_of_mem_field hm
    exact held (key, nodes) hfield m hmem

/-- What holds of a node without fields holds everywhere in it. -/
theorem everywhere_of_fields_eq_nil {P : Node → Prop} {n : Node} (h : P n) (hn : n.fields = []) :
    n.Everywhere P :=
  .intro h (by simp [hn])

/-- What holds everywhere implies everywhere what it implies at a node. -/
theorem Everywhere.imp {P Q : Node → Prop} (himp : ∀ n, P n → Q n) {n : Node}
    (h : n.Everywhere P) : n.Everywhere Q := by
  induction h with
  | intro here _ ih => exact .intro (himp _ here) ih

/-- Whether a node is of the special kind with the given name. -/
def isOfKind (kind : String) (n : Node) : Bool :=
  !n.isGeneric && n.tag == kind

/-- A node of the kind of template names is one. -/
theorem eq_templateName_of_isOfKind {n : Node} (h : n.isOfKind "VIdentifier" = true) :
    ∃ mark name rawName, n = .templateName mark name rawName := by
  cases n <;> simp [isOfKind, isGeneric, tag] at h ⊢

/-- The fields of a node hold the kinds of nodes that are declared for them. -/
def FieldsFit : Node → Prop
  | literal _ value _ => value.IsToken
  | directiveKey _ name _ modifiers =>
    name.isOfKind "VIdentifier" ∧ ∀ m ∈ modifiers, m.isOfKind "VIdentifier"
  | tagAttribute _ _ key value =>
    (key.isOfKind "VIdentifier" ∨ key.isOfKind "VDirectiveKey") ∧
      ∀ v ∈ value, v.isOfKind "VLiteral" ∨ v.isOfKind "VExpressionContainer"
  | startTag _ attributes _ => ∀ a ∈ attributes, a.isOfKind "VAttribute"
  | element _ _ _ tag _ closing =>
    tag.isOfKind "VStartTag" ∧ ∀ c ∈ closing, c.isOfKind "VEndTag"
  | program _ _ templateBody => ∀ t ∈ templateBody, t.isOfKind "VElement"
  | _ => True

/-- The nodes that a node holds have links that lead back to it. -/
def HoldsLinked (n : Node) : Prop :=
  ∀ entry ∈ n.fields, ∀ m ∈ entry.2, m.mark.parent = .holder

/-- A whole tree with its parents linked: the root has no parent, and every other node is linked to
the node that holds it. -/
structure IsLinkedTree (n : Node) : Prop where
  /-- The root has no parent. -/
  root : n.givenParent? = none
  /-- All held nodes are linked. -/
  held : n.Everywhere HoldsLinked

/-- A node held by a field of a node with linked parts is linked. -/
theorem HoldsLinked.parent_eq_holder {n m : Node} {key : String} (h : n.HoldsLinked)
    (hm : m ∈ n.field key) : m.mark.parent = .holder := by
  obtain ⟨nodes, hfield, hmem⟩ := mem_fields_of_mem_field hm
  exact h (key, nodes) hfield m hmem

end Node

end TranslationKeys
