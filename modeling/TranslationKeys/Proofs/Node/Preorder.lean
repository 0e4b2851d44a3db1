import TranslationKeys.Node.Walk
import TranslationKeys.Proofs.Lookups
import TranslationKeys.Proofs.Node.Shape
import Mathlib.Algebra.Ring.Nat
import Mathlib.Data.List.Basic

/-!
# Walks in pre-order

A walk works a stack off, but what it enters is a matter of recursion alone: the node, then what is
below it, field by field. This file defines that order without a stack and without parent links, and
shows that every walk that never goes back to a holder ends and makes the visits of the recursion.
If the visitor keys do not name the parent link, it enters exactly the places of the pre-order.
-/

namespace TranslationKeys

/-- A function lists pre-orders: everything comes before what it leads to, and what it leads to is
smaller and listed in turn. -/
structure IsPreOrder {α : Type} (size : α → Nat) (next order : α → List α) : Prop where
  /-- What is led to is smaller. -/
  smaller : ∀ a, ∀ b ∈ next a, size b < size a
  /-- A pre-order is its start followed by the pre-orders of what the start leads to. -/
  unfolds : ∀ a, order a = a :: (next a).flatMap order

namespace IsPreOrder

variable {α : Type} {size : α → Nat} {next order : α → List α} {a b c : α}

/-- What holds of everything whenever it holds of what that leads to holds of all. -/
theorem induction (h : IsPreOrder size next order) {motive : α → Prop}
    (step : ∀ a, (∀ b ∈ next a, motive b) → motive a) (a : α) : motive a := by
  induction hsize : size a using Nat.strongRecOn generalizing a with
  | _ _ ih => exact step a fun b hb => ih (size b) (hsize ▸ h.smaller a b hb) b rfl

/-- A pre-order has its start in it. -/
theorem mem_self (h : IsPreOrder size next order) (a : α) : a ∈ order a := by
  rw [h.unfolds]
  exact List.mem_cons_self

/-- The pre-order of what something leads to is part of its own. -/
theorem mem_of_mem_next (h : IsPreOrder size next order) (hb : b ∈ next a) (hc : c ∈ order b) :
    c ∈ order a := by
  rw [h.unfolds]
  exact List.mem_cons_of_mem _ (List.mem_flatMap.2 ⟨b, hb, hc⟩)

/-- A member of a pre-order is its start or in the pre-order of what the start leads to. -/
theorem mem_iff (h : IsPreOrder size next order) :
    b ∈ order a ↔ b = a ∨ ∃ c ∈ next a, b ∈ order c := by
  rw [h.unfolds, List.mem_cons, List.mem_flatMap]

/-- What holds at the start of a pre-order and passes on to what is led to holds of all of it. -/
theorem forall_mem (h : IsPreOrder size next order) {motive : α → Prop}
    (hstep : ∀ a, motive a → ∀ b ∈ next a, motive b) (ha : motive a) :
    ∀ b ∈ order a, motive b := by
  induction a using h.induction with
  | step a ih =>
    intro b hb
    rcases h.mem_iff.1 hb with rfl | ⟨child, hchild, hb⟩
    · exact ha
    · exact ih child hchild (hstep a ha child hchild) b hb

/-- A pre-order has in it what its members lead to. -/
theorem mem_next_of_mem (h : IsPreOrder size next order) (hb : b ∈ order a) (hc : c ∈ next b) :
    c ∈ order a := by
  induction a using h.induction with
  | step a ih =>
    rcases h.mem_iff.1 hb with rfl | ⟨child, hchild, hb⟩
    · exact h.mem_of_mem_next hc (h.mem_self c)
    · exact h.mem_of_mem_next hchild (ih child hchild hb)

/-- A member of a pre-order is its start or is led to by another member. -/
theorem eq_or_mem_next (h : IsPreOrder size next order) (hb : b ∈ order a) :
    b = a ∨ ∃ c ∈ order a, b ∈ next c := by
  refine h.forall_mem (motive := fun b => b ∈ order a ∧ (b = a ∨ ∃ c ∈ order a, b ∈ next c))
    (fun b hb c hc => ?_) ⟨h.mem_self a, .inl rfl⟩ b hb |>.2
  exact ⟨h.mem_next_of_mem hb.1 hc, .inr ⟨b, hb.1, hc⟩⟩

/-- Two pre-orders are the same if all members of one lead to the same in both. -/
theorem eq_of_next_eq {next' order' : α → List α} (h : IsPreOrder size next order)
    (h' : IsPreOrder size next' order') (hnext : ∀ b ∈ order a, next b = next' b) :
    order a = order' a := by
  induction a using h.induction with
  | step a ih =>
    have hbelow : (next a).flatMap order = (next a).flatMap order' :=
      List.flatMap_congr fun b hb => ih b hb fun c hc => hnext c (h.mem_of_mem_next hb hc)
    rw [h.unfolds, h'.unfolds, ← hnext a (h.mem_self a), hbelow]

end IsPreOrder

namespace VisitorKeys

/-- The fields that are put for a kind are its fields, and all other kinds keep theirs. -/
theorem lookup_put (keys : VisitorKeys) (kind other : String) (fields : List String) :
    (keys.put kind fields).lookup other =
      if other = kind then some fields else keys.lookup other := by
  have hreplace : (keys.map fun entry => if entry.1 == kind then (kind, fields) else entry).lookup
      other = if other = kind then (keys.lookup other).map fun _ => fields
        else keys.lookup other := by
    induction keys with
    | nil => simp
    | cons entry keys ih =>
      rw [List.map_cons, lookup_cons_eq, ih, lookup_cons_eq]
      grind
  have hknown : keys.any (·.1 == kind) = (keys.lookup kind).isSome := by
    rw [Bool.eq_iff_iff, isSome_lookup_iff]
    simp
  unfold put
  by_cases hother : other = kind
  · subst hother
    cases hlookup : keys.lookup other with
    | none =>
      rw [hknown, hlookup, if_neg (by simp), List.lookup_append, hlookup, lookup_cons_eq]
      simp
    | some old =>
      rw [hknown, hlookup, Option.isSome_some, if_pos rfl, hreplace, if_pos rfl, if_pos rfl,
        hlookup, Option.map_some]
  · split
    · rw [hreplace, if_neg hother]
    · rw [List.lookup_append, lookup_cons_eq, if_neg hother]
      simp

/-- The fields of a kind are the last that were supplied for it, in snake case, and those of the
default keys if none were. -/
theorem lookup_effective (supplied : Option VisitorKeys) (kind : String) :
    (effective supplied).lookup kind =
      (((supplied.getD []).reverse.lookup kind).map (·.map snakeCased)).or
        (default.lookup kind) := by
  unfold effective merged
  rw [lookup_foldl_of_lookup_put fun keys entry name => lookup_put keys entry.1 name entry.2]
  cases supplied with
  | none => rfl
  | some keys =>
    rw [Option.map_some, Option.getD_some, Option.getD_some, normalised, ← List.map_reverse,
      lookup_map_snd]

/-- Keys under which walks only go down: no kind is entered through the parent link. -/
def OnlyDown (keys : VisitorKeys) : Prop :=
  ∀ entry ∈ keys, parentField ∉ entry.2

/-- The default keys only go down. -/
theorem onlyDown_default : OnlyDown default := by
  unfold OnlyDown parentField default
  decide

/-- Replacing the fields of one kind keeps walks going down if the new fields do. -/
theorem OnlyDown.put {keys : VisitorKeys} {kind : String} {fields : List String}
    (hkeys : OnlyDown keys) (hfields : parentField ∉ fields) : OnlyDown (keys.put kind fields) := by
  intro entry hentry
  unfold VisitorKeys.put at hentry
  split at hentry
  · obtain ⟨old, hold, rfl⟩ := List.mem_map.1 hentry
    split
    · exact hfields
    · exact hkeys old hold
  · rcases List.mem_append.1 hentry with hold | hnew
    · exact hkeys entry hold
    · rw [List.mem_singleton.1 hnew]
      exact hfields

/-- Keys put over others one kind after another keep walks going down. -/
theorem OnlyDown.foldl_put {keys overrides : VisitorKeys} (hkeys : OnlyDown keys)
    (hoverrides : OnlyDown overrides) :
    OnlyDown (overrides.foldl (fun keys entry => keys.put entry.1 entry.2) keys) := by
  induction overrides generalizing keys with
  | nil => exact hkeys
  | cons entry rest ih =>
    have hentry : parentField ∉ entry.2 := hoverrides entry List.mem_cons_self
    exact ih (hkeys.put hentry) (fun e he => hoverrides e (List.mem_cons_of_mem _ he))

/-- The keys of a walk only go down unless a supplied name is the parent link in snake case. -/
theorem onlyDown_effective {supplied : Option VisitorKeys}
    (h : ∀ entry ∈ supplied.getD [], ∀ name ∈ entry.2, snakeCased name ≠ parentField) :
    OnlyDown (effective supplied) := by
  apply onlyDown_default.foldl_put
  cases supplied with
  | none => intro entry hentry; simp at hentry
  | some keys =>
    intro entry hentry hparent
    obtain ⟨given, hgiven, rfl⟩ := List.mem_map.1 hentry
    obtain ⟨name, hname, heq⟩ := List.mem_map.1 hparent
    exact h given hgiven name hname heq

end VisitorKeys

namespace Node

/-- A field that holds nodes at present is never the parent link. -/
theorem parentField_notMem_occupiedFields (n : Node) : parentField ∉ n.occupiedFields := by
  have hfields : parentField ∉ n.fields.map Prod.fst := by
    cases n <;> simp [fields, parentField]
  intro h
  cases n with
  | generic => simp [occupiedFields, parentField] at h
  | _ =>
    obtain ⟨f, hf, hkey⟩ := List.mem_map.1 h
    exact hfields (List.mem_map.2 ⟨f, (List.mem_filter.1 hf).1, hkey⟩)

/-- Under keys that only go down, no node is entered through the parent link. -/
theorem parentField_notMem_entryKeys {keys : VisitorKeys} (h : keys.OnlyDown) (n : Node) :
    parentField ∉ n.entryKeys keys := by
  unfold entryKeys
  split
  · exact parentField_notMem_occupiedFields n
  · cases hlookup : keys.lookup n.tag with
    | none => exact parentField_notMem_occupiedFields n
    | some names =>
      obtain ⟨before, after, hsplit, -⟩ := List.lookup_eq_some_iff.1 hlookup
      exact h (n.tag, names) (by rw [hsplit]; simp)

/-- No field is named like the parent link. -/
theorem field_parentField (n : Node) : n.field parentField = [] := by
  cases n <;> simp [field, fields, parentField, List.lookup_cons]

end Node

namespace Place

/-- The places directly below this one that a walk enters, field by field. -/
def below (keys : VisitorKeys) (p : Place) : List Place :=
  (p.node.entryKeys keys).flatMap fun key => (p.node.field key).map p.down

/-- A place below another one is that of a node held by one of its fields. -/
theorem exists_field_of_mem_below {keys : VisitorKeys} {p q : Place} (h : q ∈ p.below keys) :
    ∃ key, q.node ∈ p.node.field key ∧ q = p.down q.node := by
  obtain ⟨key, -, hq⟩ := List.mem_flatMap.1 h
  obtain ⟨n, hn, rfl⟩ := List.mem_map.1 hq
  exact ⟨key, hn, rfl⟩

/-- The node at a place below another one is smaller than the node there. -/
theorem sizeOf_node_lt_of_mem_below {keys : VisitorKeys} {p q : Place} (h : q ∈ p.below keys) :
    sizeOf q.node < sizeOf p.node := by
  obtain ⟨key, hq, -⟩ := exists_field_of_mem_below h
  exact Node.sizeOf_lt_of_mem_field hq

/-- A place and everything below it in pre-order: the place first, then what is below each of its
children in turn. -/
def preorder (keys : VisitorKeys) (p : Place) : List Place :=
  p :: (p.below keys).attach.flatMap fun ⟨q, _⟩ => preorder keys q
termination_by sizeOf p.node
decreasing_by exact sizeOf_node_lt_of_mem_below (by assumption)

/-- The pre-order of a place is the place followed by the pre-orders of its children. -/
theorem preorder_eq (keys : VisitorKeys) (p : Place) :
    p.preorder keys = p :: (p.below keys).flatMap (preorder keys) := by
  rw [preorder, List.flatMap_subtype (g := preorder keys) (fun _ _ => rfl), List.unattach_attach]

/-- The places of a pre-order are listed along what is directly below. -/
theorem isPreOrder_preorder (keys : VisitorKeys) :
    IsPreOrder (fun p : Place => sizeOf p.node) (below keys) (preorder keys) where
  smaller _ _ := sizeOf_node_lt_of_mem_below
  unfolds := preorder_eq keys

/-- What holds of a place and passes on to those directly below holds of its whole pre-order. -/
theorem forall_mem_preorder {keys : VisitorKeys} {motive : Place → Prop}
    (hstep : ∀ p, motive p → ∀ q ∈ p.below keys, motive q) {p : Place} (hp : motive p) :
    ∀ q ∈ p.preorder keys, motive q :=
  (isPreOrder_preorder keys).forall_mem hstep hp

/-- What holds everywhere in a tree holds everywhere in the nodes at the places of its pre-order. -/
theorem everywhere_of_mem_preorder {keys : VisitorKeys} {P : Node → Prop} {p : Place}
    (h : p.node.Everywhere P) : ∀ q ∈ p.preorder keys, q.node.Everywhere P := by
  refine forall_mem_preorder (fun q hq r hr => ?_) h
  obtain ⟨key, hmem, -⟩ := exists_field_of_mem_below hr
  exact hq.of_mem_field hmem

/-- The walk goes up from a place to its holder, and so back to where it came from. -/
def GoesBack (keys : VisitorKeys) (p : Place) : Prop :=
  parentField ∈ p.node.entryKeys keys ∧ p.node.mark.parent = .holder ∧ p.above ≠ []

/-- Unless a walk goes back, it goes on to the places inside. -/
theorem children_eq_inside {keys : VisitorKeys} {p : Place} (h : ¬ p.GoesBack keys) :
    p.children keys = p.inside keys := by
  unfold children inside
  apply List.flatMap_congr
  intro key hkey
  unfold through
  by_cases heq : key = parentField
  · subst heq
    cases hlink : p.node.mark.parent with
    | absent | given => simp [parent?, Node.givenParent?, hlink]
    | holder =>
      have habove : p.above = [] := Decidable.by_contra fun hne => h ⟨hkey, hlink, hne⟩
      simp [parent?, Node.givenParent?, hlink, habove]
  · simp [heq]

/-- Under keys that only go down, a walk never goes back. -/
theorem not_goesBack {keys : VisitorKeys} (h : keys.OnlyDown) (p : Place) : ¬ p.GoesBack keys :=
  fun hback => Node.parentField_notMem_entryKeys h p.node hback.1

/-- The places inside one are those directly below, unless the walk enters a parent of it that was
given by hand. -/
theorem inside_eq_below_of {keys : VisitorKeys} {p : Place}
    (h : parentField ∈ p.node.entryKeys keys → p.node.givenParent? = none) :
    p.inside keys = p.below keys := by
  unfold inside below
  apply List.flatMap_congr
  intro key hkey
  by_cases heq : key = parentField
  · subst heq
    simp [h hkey, Node.field_parentField]
  · simp [heq]

/-- Under keys that only go down, the places inside are those directly below. -/
theorem inside_eq_below {keys : VisitorKeys} (h : keys.OnlyDown) (p : Place) :
    p.inside keys = p.below keys :=
  inside_eq_below_of fun hparent => absurd hparent (Node.parentField_notMem_entryKeys h p.node)

/-- Under keys that only go down, a walk goes on to the places directly below. -/
theorem children_eq_below {keys : VisitorKeys} (h : keys.OnlyDown) (p : Place) :
    p.children keys = p.below keys :=
  (children_eq_inside (not_goesBack h p)).trans (inside_eq_below h p)

/-- The visits of a place are its entry, the visits of the places inside it, and its leaving. -/
theorem visits_eq (keys : VisitorKeys) (p : Place) :
    p.visits keys = .enter p :: (p.inside keys).flatMap (visits keys) ++ [.leave p] := by
  rw [visits, List.flatMap_subtype (g := visits keys) (fun _ _ => rfl), List.unattach_attach]

end Place

namespace Visit

/-- What is entered along two runs of visits is what is entered along the first, then the second. -/
theorem entered_append (first second : List Visit) :
    entered (first ++ second) = entered first ++ entered second :=
  List.filterMap_append

/-- What is entered along joined runs of visits is entered run by run. -/
theorem entered_flatMap (places : List Place) (visits : Place → List Visit) :
    entered (places.flatMap visits) = places.flatMap fun p => entered (visits p) := by
  induction places with
  | nil => rfl
  | cons p rest ih => rw [List.flatMap_cons, entered_append, ih, List.flatMap_cons]

end Visit

namespace Node

/-- A node takes two visits besides those of the nodes it holds. -/
theorem visitCount_eq (keys : VisitorKeys) (n : Node) :
    n.visitCount keys = 2 + ((n.heldNodes keys).map (visitCount keys)).sum := by
  rw [visitCount, List.map_subtype (g := visitCount keys) (fun _ _ => rfl), List.unattach_attach]
  rfl

end Node

namespace Place

/-- The nodes at the places inside a place are the nodes that its node leads to. -/
theorem map_node_inside (keys : VisitorKeys) (p : Place) :
    (p.inside keys).map Place.node = p.node.heldNodes keys := by
  unfold inside Node.heldNodes
  rw [List.map_flatMap]
  apply List.flatMap_congr
  intro key _
  unfold Node.reach
  split <;> simp [root, down, Function.comp_def]

/-- The number of visits of a place is two more than that of the places inside it. -/
theorem visitCount_node (keys : VisitorKeys) (p : Place) :
    p.node.visitCount keys = 2 + ((p.inside keys).map fun q => q.node.visitCount keys).sum := by
  rw [Node.visitCount_eq, ← map_node_inside, List.map_map]
  rfl

/-- The recursive walk enters places in pre-order along what is inside. -/
theorem isPreOrder_entered (keys : VisitorKeys) :
    IsPreOrder (fun p : Place => sizeOf p.node) (inside keys)
      fun p => Visit.entered (p.visits keys) where
  smaller _ _ := sizeOf_node_lt_of_mem_inside
  unfolds p := by
    rw [visits_eq, Visit.entered_append, ← Visit.entered_flatMap]
    simp [Visit.entered]

/-- Where no place leads to a parent given by hand, the places entered by the recursive walk are the
pre-order. -/
theorem entered_visits_of {keys : VisitorKeys} {p : Place}
    (h : ∀ q ∈ p.preorder keys, q.inside keys = q.below keys) :
    Visit.entered (p.visits keys) = p.preorder keys :=
  ((isPreOrder_preorder keys).eq_of_next_eq (isPreOrder_entered keys) fun q hq =>
    (h q hq).symm).symm

/-- Under keys that only go down, the places entered by the recursive walk are the pre-order. -/
theorem entered_visits {keys : VisitorKeys} (h : keys.OnlyDown) (p : Place) :
    Visit.entered (p.visits keys) = p.preorder keys :=
  entered_visits_of fun q _ => inside_eq_below h q

/-- A walk from a place never goes back: it does so from none of the places that it enters. -/
def NeverGoesBack (keys : VisitorKeys) (p : Place) : Prop :=
  ∀ q ∈ Visit.entered (p.visits keys), ¬ q.GoesBack keys

/-- If a walk from a place never goes back, one from a place inside it does not either. -/
theorem NeverGoesBack.of_mem_inside {keys : VisitorKeys} {p q : Place} (h : p.NeverGoesBack keys)
    (hq : q ∈ p.inside keys) : q.NeverGoesBack keys :=
  fun r hr => h r ((isPreOrder_entered keys).mem_of_mem_next hq hr)

/-- A walk that never goes back goes on from its start to the places inside. -/
theorem NeverGoesBack.children_eq_inside {keys : VisitorKeys} {p : Place}
    (h : p.NeverGoesBack keys) : p.children keys = p.inside keys :=
  Place.children_eq_inside (h p ((isPreOrder_entered keys).mem_self p))

/-- Under keys that only go down, a walk never goes back. -/
theorem neverGoesBack {keys : VisitorKeys} (h : keys.OnlyDown) (p : Place) :
    p.NeverGoesBack keys :=
  fun q _ => not_goesBack h q

end Place

namespace Walk

/-- With the fuel its visits need, a stack with a place on top from which a walk never goes back
makes the visits of that place and goes on with the rest. -/
theorem run_enter {keys : VisitorKeys} {p : Place} (h : p.NeverGoesBack keys) (fuel : Nat)
    (rest : List Visit) :
    run keys (p.node.visitCount keys + fuel) (.enter p :: rest) =
      (run keys fuel rest).map (p.visits keys ++ ·) := by
  induction p using (Place.isPreOrder_entered keys).induction generalizing fuel rest with
  | step p ih =>
    -- The places inside are worked off one by one, each leaving the fuel of those after it.
    have hinside (qs : List Place) (hqs : ∀ q ∈ qs, q ∈ p.inside keys) (fuel : Nat)
        (rest : List Visit) :
        run keys ((qs.map fun q => q.node.visitCount keys).sum + fuel) (qs.map .enter ++ rest) =
          (run keys fuel rest).map (qs.flatMap (Place.visits keys) ++ ·) := by
      induction qs with
      | nil => cases hrun : run keys fuel rest <;> simp [hrun]
      | cons q qs ihqs =>
        have hmem : q ∈ p.inside keys := hqs q List.mem_cons_self
        rw [List.map_cons, List.sum_cons, Nat.add_assoc, List.map_cons, List.cons_append,
          ih q hmem (h.of_mem_inside hmem),
          ihqs (fun x hx => hqs x (List.mem_cons_of_mem _ hx)), Option.map_map]
        simp [Function.comp_def]
    have hcount : p.node.visitCount keys + fuel =
        ((p.inside keys).map fun q => q.node.visitCount keys).sum + (fuel + 1) + 1 := by
      rw [Place.visitCount_node]
      omega
    rw [hcount, run, h.children_eq_inside, hinside _ (fun _ hq => hq), run, Place.visits_eq]
    cases run keys fuel rest <;> simp

/-- A walk that never goes back ends and makes the visits of the recursive walk. -/
theorem visits?_of_neverGoesBack {keys : VisitorKeys} {p : Place} (h : p.NeverGoesBack keys) :
    visits? keys p = some (p.visits keys) := by
  have hrun := run_enter h 0 []
  rw [Nat.add_zero] at hrun
  rw [visits?, hrun]
  simp [run]

/-- A walk under keys that only go down ends and makes the visits of the recursive walk. -/
theorem visits?_eq_some {keys : VisitorKeys} (h : keys.OnlyDown) (p : Place) :
    visits? keys p = some (p.visits keys) :=
  visits?_of_neverGoesBack (Place.neverGoesBack h p)

end Walk

end TranslationKeys
