import TranslationKeys.Proofs.Node.Extraction
import TranslationKeys.Proofs.Node.Linking

/-!
# Walking without visitor keys

A kind without visitor keys is entered through the fields that hold nodes at present. These are the
fields that the default visitor keys name, in the same order, with one exception: the template of a
program, which the default keys leave out. So walks without any keys and walks under the default
keys are the same exactly if the latter come upon no program with a template.
-/

namespace TranslationKeys

namespace Node

/-- The template of a program. -/
def template? : Node → Option Node
  | program _ _ templateBody => templateBody
  | _ => none

/-- A node is no program with a template. -/
def LacksTemplate (n : Node) : Prop :=
  n.template? = none

/-- A field holds the nodes that are listed with it. -/
theorem field_eq_of_mem_fields {n : Node} {key : String} {nodes : List Node}
    (h : (key, nodes) ∈ n.fields) : n.field key = nodes := by
  cases n with
  | identifier | literal | templateName | templateLiteral | endTag | templateText =>
    exact absurd h List.not_mem_nil
  | generic | container | startTag =>
    obtain ⟨rfl, rfl⟩ := Prod.mk.inj (List.mem_singleton.1 h)
    simp [field, fields]
  | call | member | tagAttribute | program =>
    simp only [fields, List.mem_cons, Prod.mk.injEq, List.not_mem_nil, or_false] at h
    rcases h with ⟨rfl, rfl⟩ | ⟨rfl, rfl⟩ <;> simp [field, fields, List.lookup_cons]
  | directiveKey | element =>
    simp only [fields, List.mem_cons, Prod.mk.injEq, List.not_mem_nil, or_false] at h
    rcases h with ⟨rfl, rfl⟩ | ⟨rfl, rfl⟩ | ⟨rfl, rfl⟩ <;>
      simp [field, fields, List.lookup_cons]

/-- The occupied fields hold everything that the fields of a node hold. -/
theorem flatMap_field_occupiedFields (n : Node) :
    n.occupiedFields.flatMap n.field = n.fields.flatMap Prod.snd := by
  have hoccupied : ((n.fields.filter fun f => !f.2.isEmpty).map Prod.fst).flatMap n.field =
      n.fields.flatMap Prod.snd := by
    rw [List.flatMap_map]
    -- Along the listed fields, those that are left out hold nothing.
    suffices ∀ fs ⊆ n.fields, (fs.filter fun f => !f.2.isEmpty).flatMap (fun f => n.field f.1) =
        fs.flatMap Prod.snd from this n.fields (List.Subset.refl _)
    intro fs hfs
    induction fs with
    | nil => rfl
    | cons f fs ih =>
      have hrest := ih fun g hg => hfs (List.mem_cons_of_mem _ hg)
      by_cases hempty : f.2 = []
      · simp [hempty, hrest]
      · have hfield : n.field f.1 = f.2 := field_eq_of_mem_fields (hfs List.mem_cons_self)
        simp [hempty, hrest, hfield]
  cases n with
  | generic _ _ children => simp [occupiedFields, field, fields]
  | _ => exact hoccupied

/-- The fields of a node hold what the default visitor keys lead to, and the template. -/
theorem flatMap_fields (n : Node) :
    n.fields.flatMap Prod.snd = n.held ++ n.template?.toList := by
  cases n <;> simp [fields, held, template?]

/-- Without visitor keys, a walk is led to the template besides what the default keys lead to. -/
theorem heldNodes_nil (n : Node) :
    n.heldNodes [] = n.heldNodes VisitorKeys.default ++ n.template?.toList := by
  have hkeys : n.entryKeys [] = n.occupiedFields := by
    unfold entryKeys
    split <;> rfl
  rw [heldNodes_default, ← flatMap_fields, ← flatMap_field_occupiedFields, heldNodes, hkeys]
  apply List.flatMap_congr
  intro key hkey
  have hparent : key ≠ parentField := fun h => parentField_notMem_occupiedFields n (h ▸ hkey)
  simp [reach, hparent]

end Node

namespace VisitorKeys

/-- Without visitor keys, walks only go down. -/
theorem onlyDown_nil : OnlyDown [] :=
  fun _ h => absurd h List.not_mem_nil

end VisitorKeys

namespace Place

/-- Under keys that only go down, the places below one are those of the nodes it leads to. -/
theorem below_eq_map_down {keys : VisitorKeys} (h : keys.OnlyDown) (p : Place) :
    p.below keys = (p.node.heldNodes keys).map p.down := by
  unfold below Node.heldNodes
  rw [List.map_flatMap]
  apply List.flatMap_congr
  intro key hkey
  have hparent : key ≠ parentField :=
    fun heq => Node.parentField_notMem_entryKeys h p.node (heq ▸ hkey)
  simp [Node.reach, hparent]

/-- Without visitor keys, a walk enters the template besides what the default keys enter. -/
theorem below_nil (p : Place) :
    p.below [] = p.below VisitorKeys.default ++ p.node.template?.toList.map p.down := by
  rw [below_eq_map_down VisitorKeys.onlyDown_nil, below_eq_map_down VisitorKeys.onlyDown_default,
    Node.heldNodes_nil, List.map_append]

/-- From a place without a template, a walk without keys goes on like one under the default keys. -/
theorem below_nil_of_lacksTemplate {p : Place} (h : p.node.LacksTemplate) :
    p.below [] = p.below VisitorKeys.default := by
  rw [below_nil, h]
  exact List.append_nil _

/-- Under two sets of keys that lead to the same from every place that is entered, a walk makes the
same visits. -/
theorem visits_eq_of_inside_eq {keys keys' : VisitorKeys} {p : Place}
    (h : ∀ q ∈ Visit.entered (p.visits keys), q.inside keys = q.inside keys') :
    p.visits keys = p.visits keys' := by
  have hentered := isPreOrder_entered keys
  induction p using hentered.induction with
  | step p ih =>
    have hinside : (p.inside keys).flatMap (visits keys) =
        (p.inside keys).flatMap (visits keys') :=
      List.flatMap_congr fun q hq => ih q hq fun r hr => h r (hentered.mem_of_mem_next hq hr)
    rw [visits_eq, visits_eq, hinside, h p (hentered.mem_self p)]

/-- No program with a template is met on the way that the default visitor keys lead. -/
def MeetsNoTemplate (p : Place) : Prop :=
  ∀ q ∈ p.preorder VisitorKeys.default, q.node.LacksTemplate

/-- In a tree without templates none is met. -/
theorem meetsNoTemplate_of_everywhere {p : Place} (h : p.node.Everywhere Node.LacksTemplate) :
    p.MeetsNoTemplate :=
  fun q hq => (everywhere_of_mem_preorder h q hq).here

section MeetsNoTemplate

variable {p : Place}

/-- If no template is met, the pre-order without keys is that under the default keys. -/
theorem MeetsNoTemplate.preorder_nil (h : p.MeetsNoTemplate) :
    p.preorder [] = p.preorder VisitorKeys.default :=
  ((isPreOrder_preorder VisitorKeys.default).eq_of_next_eq (isPreOrder_preorder []) fun q hq =>
    (below_nil_of_lacksTemplate (h q hq)).symm).symm

/-- If no template is met, the visits without keys are those under the default keys. -/
theorem MeetsNoTemplate.visits_nil (h : p.MeetsNoTemplate) :
    p.visits [] = p.visits VisitorKeys.default := by
  refine (visits_eq_of_inside_eq fun q hq => ?_).symm
  rw [entered_visits VisitorKeys.onlyDown_default] at hq
  rw [inside_eq_below VisitorKeys.onlyDown_default, inside_eq_below VisitorKeys.onlyDown_nil,
    below_nil_of_lacksTemplate (h q hq)]

end MeetsNoTemplate

/-- Without keys at least as many places are entered as under the default keys, and more of them if
a template is met. -/
theorem length_preorder_default (p : Place) :
    (p.preorder VisitorKeys.default).length ≤ (p.preorder []).length ∧
      (¬ p.MeetsNoTemplate →
        (p.preorder VisitorKeys.default).length < (p.preorder []).length) := by
  induction p using (isPreOrder_preorder VisitorKeys.default).induction with
  | step p ih =>
    have hsum : ((p.below VisitorKeys.default).map
        fun q => (q.preorder VisitorKeys.default).length).sum ≤
          ((p.below VisitorKeys.default).map fun q => (q.preorder []).length).sum :=
      List.sum_le_sum fun q hq => (ih q hq).1
    have hlength : (p.preorder []).length =
        ((p.below VisitorKeys.default).map fun q => (q.preorder []).length).sum +
          ((p.node.template?.toList.map p.down).map fun q => (q.preorder []).length).sum + 1 := by
      rw [preorder_eq, List.length_cons, List.length_flatMap, below_nil, List.map_append,
        List.sum_append]
    rw [hlength, preorder_eq, List.length_cons, List.length_flatMap]
    refine ⟨by omega, fun hmeets => ?_⟩
    unfold MeetsNoTemplate at hmeets
    push Not at hmeets
    obtain ⟨q, hq, htemplate⟩ := hmeets
    rw [preorder_eq] at hq
    rcases List.mem_cons.1 hq with rfl | hq
    · -- The template of the place itself is one place more.
      cases hfound : q.node.template? with
      | none => exact absurd hfound htemplate
      | some template =>
        have hpos : 0 < ((q.down template).preorder []).length := by
          rw [preorder_eq, List.length_cons]
          omega
        simp only [Option.toList_some, List.map_cons, List.map_nil, List.sum_cons, List.sum_nil]
        omega
    · -- A template further down makes the way below some child longer.
      obtain ⟨child, hchild, hq⟩ := List.mem_flatMap.1 hq
      have hlt := List.sum_lt_sum (l := p.below VisitorKeys.default)
        (fun q => (q.preorder VisitorKeys.default).length) (fun q => (q.preorder []).length)
        (fun q hq => (ih q hq).1)
        ⟨child, hchild, (ih child hchild).2 fun h => htemplate (h q hq)⟩
      omega

/-- Walks without keys enter the places that walks under the default keys enter exactly if the
latter meet no template. -/
theorem places?_nil_eq_iff (p : Place) :
    Walk.places? [] p = Walk.places? VisitorKeys.default p ↔ p.MeetsNoTemplate := by
  rw [Walk.places?_eq_some VisitorKeys.onlyDown_nil,
    Walk.places?_eq_some VisitorKeys.onlyDown_default, Option.some.injEq]
  refine ⟨fun h => Classical.by_contradiction fun hmeets => ?_, MeetsNoTemplate.preorder_nil⟩
  have hlt := (length_preorder_default p).2 hmeets
  rw [h] at hlt
  exact lt_irrefl _ hlt

/-- In a tree without templates, walks without any visitor keys and walks under the default keys
end, enter the same places in the same order, and make the same visits. -/
theorem walks_nil_eq_default {p : Place} (h : p.node.Everywhere Node.LacksTemplate) :
    (∃ places, Walk.places? [] p = some places ∧
        Walk.places? VisitorKeys.default p = some places) ∧
      ∃ visits, Walk.visits? [] p = some visits ∧
        Walk.visits? VisitorKeys.default p = some visits := by
  have hmeets := meetsNoTemplate_of_everywhere h
  refine ⟨⟨p.preorder VisitorKeys.default, ?_, ?_⟩, p.visits VisitorKeys.default, ?_, ?_⟩
  · rw [Walk.places?_eq_some VisitorKeys.onlyDown_nil, hmeets.preorder_nil]
  · exact Walk.places?_eq_some VisitorKeys.onlyDown_default p
  · rw [Walk.visits?_eq_some VisitorKeys.onlyDown_nil, hmeets.visits_nil]
  · exact Walk.visits?_eq_some VisitorKeys.onlyDown_default p

end Place

namespace Node

/-- A program that holds a translation element next to a translator call. -/
def sampleBody : Node := program {} [sampleElement, sampleCall] none

/-- The sample is walked in the same way without visitor keys and under the default ones. -/
theorem walks_nil_eq_default_sampleBody :
    sampleBody.Everywhere LacksTemplate ∧
      (∃ places, Walk.places? [] (Place.root sampleBody) = some places ∧
        Walk.places? VisitorKeys.default (Place.root sampleBody) = some places) ∧
      ∃ visits, Walk.visits? [] (Place.root sampleBody) = some visits ∧
        Walk.visits? VisitorKeys.default (Place.root sampleBody) = some visits := by
  have hleaf {n : Node} (hn : n.fields = []) (hlacks : n.LacksTemplate) :
      n.Everywhere LacksTemplate := everywhere_of_fields_eq_nil hlacks hn
  have hcall : sampleCall.Everywhere LacksTemplate := by
    refine .intro rfl ?_
    simpa [sampleCall, fields] using And.intro
      (hleaf (n := identifier { parent := .holder } "$t") rfl rfl)
      (hleaf (n := literal { parent := .holder } (.int 7) "7") rfl rfl)
  have hattribute : sampleAttribute.Everywhere LacksTemplate := by
    refine .intro rfl ?_
    simpa [sampleAttribute, fields] using And.intro
      (hleaf (n := templateName { parent := .holder } "path" "path") rfl rfl)
      (hleaf (n := templateLiteral { parent := .holder } "hello") rfl rfl)
  have helement : sampleElement.Everywhere LacksTemplate := by
    have htag : sampleTag.Everywhere LacksTemplate :=
      .intro rfl (by simpa [sampleTag, fields] using hattribute)
    exact .intro rfl (by simpa [sampleElement, fields] using htag)
  have hbody : sampleBody.Everywhere LacksTemplate :=
    .intro rfl (by simpa [sampleBody, fields] using And.intro helement hcall)
  exact ⟨hbody, Place.walks_nil_eq_default hbody⟩

end Node

end TranslationKeys
