import TranslationKeys.Node.Keys
import TranslationKeys.Proofs.Node.Preorder
import TranslationKeys.Proofs.Value.Text
import Mathlib.Logic.Relation

/-!
# Walks that end

A walk keeps no record of where it has been, and visitor keys may name the parent link. From a root,
a walk that goes back to the holder of a node comes to that node again and never ends; all other
walks end and make the visits of the recursion. Where no parent was given by hand, they meet below a
node nothing but its descendants. The template is walked under the default visitor keys, and that
walk always ends.
-/

namespace TranslationKeys

open Relation

namespace Place

/-- One place is that of a node held by the node at another. -/
def Holds (p q : Place) : Prop :=
  ∃ key, q.node ∈ p.node.field key ∧ q = p.down q.node

/-- A walk goes on from one place to another. -/
def LeadsTo (keys : VisitorKeys) (p q : Place) : Prop :=
  q ∈ p.children keys

section LeadsTo

variable {keys : VisitorKeys} {p q : Place}

/-- A walk goes on to the places inside the one it is at. -/
theorem leadsTo_of_mem_inside (h : q ∈ p.inside keys) : p.LeadsTo keys q := by
  obtain ⟨key, hkey, hq⟩ := List.mem_flatMap.1 h
  refine List.mem_flatMap.2 ⟨key, hkey, ?_⟩
  unfold through
  split at hq
  · rename_i hparent
    obtain ⟨n, hn, rfl⟩ := List.mem_map.1 hq
    have hlink : p.node.givenParent? = some n := Option.mem_toList.1 hn
    unfold Node.givenParent? at hlink
    cases hmark : p.node.mark.parent with
    | given m =>
      obtain rfl : m = n := by simpa [hmark] using hlink
      simp [hparent, parent?, hmark]
    | absent | holder => simp [hmark] at hlink
  · rename_i hparent
    simpa [hparent] using hq

/-- A place inside another one is held by the node there if it is held at all. -/
theorem above_eq_of_mem_inside (h : q ∈ p.inside keys) (habove : q.above ≠ []) :
    q.above = p.node :: p.above := by
  obtain ⟨key, -, hq⟩ := List.mem_flatMap.1 h
  split at hq
  · obtain ⟨n, -, rfl⟩ := List.mem_map.1 hq
    exact absurd rfl habove
  · obtain ⟨n, -, rfl⟩ := List.mem_map.1 hq
    rfl

/-- A walk that goes back from a place inside another one returns to that one. -/
theorem GoesBack.leadsTo (h : q.GoesBack keys) (hq : q ∈ p.inside keys) : q.LeadsTo keys p := by
  obtain ⟨hkey, hlink, habove⟩ := h
  refine List.mem_flatMap.2 ⟨parentField, hkey, ?_⟩
  have hparent : q.parent? = some p := by
    unfold parent?
    rw [hlink, above_eq_of_mem_inside hq habove]
  simp [through, hparent]

/-- A walk comes from its start to every place that the recursive walk enters. -/
theorem reflTransGen_leadsTo (hq : q ∈ Visit.entered (p.visits keys)) :
    ReflTransGen (LeadsTo keys) p q :=
  (isPreOrder_entered keys).forall_mem (motive := ReflTransGen (LeadsTo keys) p)
    (fun _ hr _ hs => hr.tail (leadsTo_of_mem_inside hs)) .refl q hq

/-- A walk that goes back somewhere below a root comes to the same place over and over. -/
theorem exists_transGen_leadsTo {n : Node} (h : ¬ (root n).NeverGoesBack keys) :
    ∃ q, TransGen (LeadsTo keys) (root n) q ∧ TransGen (LeadsTo keys) q q := by
  unfold NeverGoesBack at h
  push Not at h
  obtain ⟨q, hq, hback⟩ := h
  rcases (isPreOrder_entered keys).eq_or_mem_next hq with rfl | ⟨r, -, hr⟩
  · exact absurd rfl hback.2.2
  · have hreturn : TransGen (LeadsTo keys) q q :=
      .tail (.single (hback.leadsTo hr)) (leadsTo_of_mem_inside hr)
    exact ⟨q, hreturn.trans_right (reflTransGen_leadsTo hq), hreturn⟩

end LeadsTo

end Place

namespace Walk

/-- A walk from a place ends: given enough fuel, its stack is worked off. -/
def Ends (keys : VisitorKeys) (p : Place) : Prop :=
  ∃ fuel visits, run keys fuel [.enter p] = some visits

/-- No fuel is enough for a stack with a place on it from which a walk can always go on. -/
theorem run_eq_none {keys : VisitorKeys} {goesOn : Place → Prop}
    (hstep : ∀ p, goesOn p → ∃ q, p.LeadsTo keys q ∧ goesOn q) {p : Place} (hp : goesOn p)
    (fuel : Nat) {stack : List Visit} (hmem : .enter p ∈ stack) : run keys fuel stack = none := by
  induction fuel generalizing p stack with
  | zero =>
    cases stack with
    | nil => exact absurd hmem List.not_mem_nil
    | cons => rfl
  | succ fuel ih =>
    match stack, hmem with
    | .leave r :: rest, hmem =>
      have hrest : .enter p ∈ rest := by simpa using hmem
      rw [run, ih hp hrest]
      rfl
    | .enter r :: rest, hmem =>
      -- Either the place is the one on top, and one of its children carries on, or it stays below.
      have hnext : ∃ q, goesOn q ∧
          .enter q ∈ (r.children keys).map .enter ++ .leave r :: rest := by
        rcases List.mem_cons.1 hmem with heq | hrest
        · obtain rfl : p = r := Visit.enter.inj heq
          obtain ⟨q, hq, hgoes⟩ := hstep p hp
          exact ⟨q, hgoes, List.mem_append_left _ (List.mem_map_of_mem hq)⟩
        · exact ⟨p, hp, List.mem_append_right _ (List.mem_cons_of_mem _ hrest)⟩
      obtain ⟨q, hgoes, hq⟩ := hnext
      rw [run, ih hgoes hq]
      rfl

/-- A walk that comes to some place over and over never ends. -/
theorem not_ends {keys : VisitorKeys} {p q : Place} (hp : TransGen (Place.LeadsTo keys) p q)
    (hq : TransGen (Place.LeadsTo keys) q q) : ¬ Ends keys p := by
  intro ⟨fuel, visits, hrun⟩
  have hstep (r : Place) (hr : TransGen (Place.LeadsTo keys) r q) :
      ∃ s, r.LeadsTo keys s ∧ TransGen (Place.LeadsTo keys) s q := by
    obtain ⟨s, hfirst, hrest⟩ := TransGen.head'_iff.1 hr
    exact ⟨s, hfirst, hq.trans_right hrest⟩
  rw [run_eq_none hstep hp fuel List.mem_cons_self] at hrun
  exact nomatch hrun

/-- A walk whose visits are known ends. -/
theorem ends_of_visits? {keys : VisitorKeys} {p : Place} {visits : List Visit}
    (h : visits? keys p = some visits) : Ends keys p :=
  ⟨p.node.visitCount keys, visits, h⟩

/-- A walk from a root ends exactly if it never goes back to a holder. -/
theorem ends_iff_neverGoesBack {keys : VisitorKeys} {n : Node} :
    Ends keys (Place.root n) ↔ (Place.root n).NeverGoesBack keys := by
  refine ⟨fun h => Classical.by_contradiction fun hback => ?_, fun h =>
    ends_of_visits? (visits?_of_neverGoesBack h)⟩
  obtain ⟨q, hq, hreturn⟩ := Place.exists_transGen_leadsTo hback
  exact not_ends hq hreturn h

end Walk

namespace Place

/-- A walk from a place ends, makes the visits of the recursive walk, and enters below each node
nothing but descendants of it. -/
structure IsDescent (keys : VisitorKeys) (p : Place) : Prop where
  /-- The walk ends after the visits of the recursive walk. -/
  ends : Walk.visits? keys p = some (p.visits keys)
  /-- What is entered below a place is held there, at some depth. -/
  down : ∀ q ∈ Visit.entered (p.visits keys), ∀ r,
    TransGen (LeadsTo keys) q r → TransGen Holds q r

/-- A walk that never goes back descends if it enters no parents that were given by hand. -/
theorem NeverGoesBack.isDescent {keys : VisitorKeys} {p : Place} (h : p.NeverGoesBack keys)
    (hinside : ∀ q ∈ Visit.entered (p.visits keys), q.inside keys = q.below keys) :
    p.IsDescent keys where
  ends := Walk.visits?_of_neverGoesBack h
  down q hq r hr := by
    have hnext {a b : Place} (ha : a ∈ Visit.entered (p.visits keys)) (hb : a.LeadsTo keys b) :
        b ∈ Visit.entered (p.visits keys) ∧ a.Holds b := by
      have hmem : b ∈ a.inside keys := Place.children_eq_inside (h a ha) ▸ hb
      refine ⟨(isPreOrder_entered keys).mem_next_of_mem ha hmem, ?_⟩
      exact exists_field_of_mem_below (hinside a ha ▸ hmem)
    suffices r ∈ Visit.entered (p.visits keys) ∧ TransGen Holds q r from this.2
    induction hr with
    | single hb => exact ⟨(hnext hq hb).1, .single (hnext hq hb).2⟩
    | tail _ hc ih => exact ⟨(hnext ih.1 hc).1, ih.2.tail (hnext ih.1 hc).2⟩

/-- Under keys that only go down, every walk descends. -/
theorem isDescent {keys : VisitorKeys} (h : keys.OnlyDown) (p : Place) : p.IsDescent keys :=
  (neverGoesBack h p).isDescent fun q _ => inside_eq_below h q

/-- In a tree without parents given by hand the places inside are those directly below. -/
theorem inside_eq_below_of_everywhere {keys : VisitorKeys} {p : Place}
    (h : p.node.Everywhere (·.givenParent? = none)) :
    ∀ q ∈ Visit.entered (p.visits keys), q.inside keys = q.below keys := by
  have hpreorder : ∀ q ∈ p.preorder keys, q.inside keys = q.below keys := fun q hq =>
    inside_eq_below_of fun _ => (everywhere_of_mem_preorder h q hq).here
  rwa [entered_visits_of hpreorder]

end Place

/-- Reading a key off a node does not fail for an endless walk. -/
theorem Node.literalKey?_failsOnlyBy (n : Node) :
    FailsOnlyBy (· ≠ .endlessWalk) n.literalKey? := by
  unfold literalKey?
  split
  · split
    · refine .bind ?_ fun _ _ => .pure _
      exact (Scalar.scriptText_failsOnlyBy _).imp fun e he => by simp [he]
    · exact .ok _
  · exact .ok _

/-- Asking a node for the name of a directive does not fail for an endless walk. -/
theorem Node.namesTranslation_failsOnlyBy (n : Node) :
    FailsOnlyBy (· ≠ .endlessWalk) n.namesTranslation := by
  cases n with
  | identifier | templateName | element | directiveKey => exact .ok _
  | _ =>
    intro e he
    simp [← Except.error.inj he]

namespace Place

/-- Looking for the key of a call does not fail for an endless walk. -/
theorem callKey?_failsOnlyBy (callee : Node) (arguments : List Node) :
    FailsOnlyBy (· ≠ .endlessWalk) (callKey? callee arguments) := by
  unfold callKey?
  split
  · split
    · exact Node.literalKey?_failsOnlyBy _
    · exact .ok _
  · exact .ok _

/-- Looking for the key of a directive does not fail for an endless walk. -/
theorem directiveKey?_failsOnlyBy (key : Node) (value : Option Node) :
    FailsOnlyBy (· ≠ .endlessWalk) (directiveKey? key value) := by
  unfold directiveKey?
  split
  · rename_i name _ _
    refine .bind name.namesTranslation_failsOnlyBy fun isTranslation _ => ?_
    cases isTranslation with
    | false => exact .pure _
    | true =>
      split
      · split
        · exact Node.literalKey?_failsOnlyBy _
        · exact .pure _
      · exact .pure _
  · exact .ok _

/-- Looking for the key at a place does not fail for an endless walk. -/
theorem key?_failsOnlyBy (p : Place) : FailsOnlyBy (· ≠ .endlessWalk) p.key? := by
  unfold key?
  split
  · exact callKey?_failsOnlyBy _ _
  · split
    · exact directiveKey?_failsOnlyBy _ _
    · exact .ok _
  · exact .ok _

/-- Looking for keys along a walk fails for an endless walk exactly if the walk does not end. -/
theorem keysAlong_eq_endlessWalk_iff {keys : VisitorKeys} {n : Node} :
    (root n).keysAlong keys = .error .endlessWalk ↔ ¬ Walk.Ends keys (root n) := by
  have hkeys (visits : List Visit) : FailsOnlyBy (· ≠ .endlessWalk)
      ((Visit.entered visits).mapM key? >>= fun found => .ok (found.filterMap id)) :=
    .bind (.mapM fun q _ => q.key?_failsOnlyBy) fun _ _ => .ok _
  unfold keysAlong
  cases hvisits : Walk.visits? keys (root n) with
  | none =>
    refine iff_of_true rfl fun hends => ?_
    rw [Walk.visits?_of_neverGoesBack (Walk.ends_iff_neverGoesBack.1 hends)] at hvisits
    exact nomatch hvisits
  | some visits =>
    refine iff_of_false (fun h => hkeys visits _ h rfl) ?_
    exact not_not_intro (Walk.ends_of_visits? hvisits)

end Place

namespace Node

/-- Extraction from the template never fails for an endless walk. -/
theorem templateKeys_failsOnlyBy (n : Node) : FailsOnlyBy (· ≠ .endlessWalk) n.templateKeys := by
  unfold templateKeys
  split
  · unfold Place.keysAlong
    rw [Walk.visits?_eq_some VisitorKeys.onlyDown_default]
    exact .bind (.mapM fun q _ => q.key?_failsOnlyBy) fun _ _ => .ok _
  · exact .ok _

/-- Extraction runs for ever exactly if the walk of the program goes back to a holder: the walk of
the template always descends, and that of the program ends if it never goes back. It then descends
as well if no parents were given by hand, and in any case if no visitor key is the parent link. -/
theorem extraction_ends_iff {n : Node} {given : Value} {supplied : Option VisitorKeys}
    (hgiven : VisitorKeys.ofValue given = .ok supplied) :
    (∀ template ∈ n.field "template_body",
        ((Place.root n).down template).IsDescent VisitorKeys.default) ∧
      (Walk.Ends (VisitorKeys.effective supplied) (Place.root n) ↔
        (Place.root n).NeverGoesBack (VisitorKeys.effective supplied)) ∧
      (n.keysUnder given = .error .endlessWalk ↔
        (∃ found, n.templateKeys = .ok found) ∧
          ¬ Walk.Ends (VisitorKeys.effective supplied) (Place.root n)) ∧
      (n.Everywhere (·.givenParent? = none) →
        Walk.Ends (VisitorKeys.effective supplied) (Place.root n) →
        (Place.root n).IsDescent (VisitorKeys.effective supplied)) ∧
      ((∀ entry ∈ supplied.getD [], ∀ name ∈ entry.2,
          VisitorKeys.snakeCased name ≠ parentField) →
        (Place.root n).IsDescent (VisitorKeys.effective supplied)) := by
  refine ⟨fun template _ => Place.isDescent VisitorKeys.onlyDown_default _,
    Walk.ends_iff_neverGoesBack, ?_, fun hgivenParents hends => ?_, fun hnames =>
      Place.isDescent (VisitorKeys.onlyDown_effective hnames) _⟩
  · rw [← Place.keysAlong_eq_endlessWalk_iff]
    cases htemplate : n.templateKeys with
    | error e =>
      have hkeys : n.keysUnder given = .error e := by rw [keysUnder, htemplate]; rfl
      have hne := templateKeys_failsOnlyBy n e htemplate
      rw [hkeys]
      exact iff_of_false (fun h => hne (Except.error.inj h)) fun h => nomatch h.1
    | ok fromTemplate =>
      have hkeys : n.keysUnder given =
          (fun fromScript => firstSeen (fromTemplate ++ fromScript)) <$>
            (Place.root n).keysAlong (VisitorKeys.effective supplied) := by
        rw [keysUnder, htemplate, hgiven]
        rfl
      rw [hkeys]
      cases (Place.root n).keysAlong (VisitorKeys.effective supplied) with
      | error e => exact ⟨fun h => ⟨⟨_, rfl⟩, h⟩, fun h => h.2⟩
      | ok found => exact iff_of_false (nomatch ·) fun h => nomatch h.2
  · exact (Walk.ends_iff_neverGoesBack.1 hends).isDescent
      (Place.inside_eq_below_of_everywhere hgivenParents)

/-- A program that holds one name. -/
def sampleName : Node := program {} [identifier { parent := .holder } "a"] none

/-- Visitor keys that send a walk from names to what holds them. -/
def upwardKeys : Value := .map [(.str "Identifier", .list [.str "parent"])]

/-- The sample has its parents linked, and its extraction under the upward keys never ends. -/
theorem keysUnder_sampleName_upwardKeys :
    sampleName.IsLinkedTree ∧
      VisitorKeys.ofValue upwardKeys = .ok (some [("Identifier", ["parent"])]) ∧
      sampleName.keysUnder upwardKeys = .error .endlessWalk := by
  have hgiven : VisitorKeys.ofValue upwardKeys = .ok (some [("Identifier", ["parent"])]) := rfl
  obtain ⟨-, hends, hkeys, -⟩ := extraction_ends_iff (n := sampleName) hgiven
  refine ⟨⟨rfl, ?_⟩, hgiven, hkeys.2 ⟨⟨[], rfl⟩, fun h => ?_⟩⟩
  · refine .intro (by simp [HoldsLinked, sampleName, fields, mark]) ?_
    simpa [sampleName, fields] using
      everywhere_of_fields_eq_nil (n := identifier { parent := .holder } "a")
        (show HoldsLinked _ by simp [HoldsLinked, fields]) rfl
  · have hname : (Place.root sampleName).down (identifier { parent := .holder } "a") ∈
        (Place.root sampleName).inside
          (VisitorKeys.effective (some [("Identifier", ["parent"])])) :=
      List.mem_singleton_self _
    refine hends.1 h _ ((Place.isPreOrder_entered _).mem_of_mem_next hname
      ((Place.isPreOrder_entered _).mem_self _)) ⟨?_, rfl, by simp [Place.down, Place.root]⟩
    exact List.mem_singleton_self _

end Node

end TranslationKeys
