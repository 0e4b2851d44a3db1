import TranslationKeys.Proofs.Node.Extraction
import TranslationKeys.Proofs.Node.Linking

/-!
# Walks and recursion

A walk works a stack off. Whatever is on the stack, what is still to come of it are the visits that
the recursion makes of its items, one item after the other. So a walk makes the visits of the
recursion: they are well nested, each place is left as often as it is entered, and the places are
entered in the order in which a walk that only enters notes them.
-/

namespace TranslationKeys

namespace Visit

/-- The visits that an item of a stack stands for: those of its place if it is to be entered, the
item alone if it is to be left. -/
def due (keys : VisitorKeys) : Visit → List Visit
  | enter p => p.visits keys
  | leave p => [leave p]

/-- The places that are left, in order. -/
def left (visits : List Visit) : List Place :=
  visits.filterMap fun
    | enter _ => none
    | leave p => some p

/-- Visits are well nested: whatever is entered is left again, and what is entered in between is
left in between. -/
inductive WellNested : List Visit → Prop where
  /-- No visits. -/
  | nil : WellNested []
  /-- A place is entered and left around visits, and others follow. -/
  | around {p : Place} {inner rest : List Visit} (hinner : WellNested inner)
      (hrest : WellNested rest) : WellNested (enter p :: inner ++ leave p :: rest)

/-- Well-nested visits after one another are well nested. -/
theorem WellNested.append {first second : List Visit} (hfirst : WellNested first)
    (hsecond : WellNested second) : WellNested (first ++ second) := by
  induction hfirst with
  | nil => exact hsecond
  | around hinner _ _ ihrest =>
    rw [List.append_assoc, List.cons_append]
    exact .around hinner ihrest

/-- Joined runs of visits are well nested if each run is. -/
theorem wellNested_flatMap {places : List Place} {visits : Place → List Visit}
    (h : ∀ p ∈ places, WellNested (visits p)) : WellNested (places.flatMap visits) := by
  induction places with
  | nil => exact .nil
  | cons p places ih =>
    obtain ⟨hp, hplaces⟩ := List.forall_mem_cons.1 h
    rw [List.flatMap_cons]
    exact hp.append (ih hplaces)

/-- What is left along two runs of visits is what is left along the first, then the second. -/
theorem left_append (first second : List Visit) :
    left (first ++ second) = left first ++ left second :=
  List.filterMap_append

/-- Along well-nested visits every place is left as often as it is entered. -/
theorem WellNested.left_perm_entered {visits : List Visit} (h : WellNested visits) :
    (left visits).Perm (entered visits) := by
  induction h with
  | nil => exact .nil
  | @around p inner rest _ _ ihinner ihrest =>
    have hleft : left (enter p :: inner ++ leave p :: rest) = left inner ++ p :: left rest :=
      left_append inner (leave p :: rest)
    have hentered : entered (enter p :: inner ++ leave p :: rest) =
        p :: (entered inner ++ entered rest) :=
      congrArg (p :: ·) (entered_append inner (leave p :: rest))
    rw [hleft, hentered]
    exact List.perm_middle.trans ((ihinner.append ihrest).cons p)

end Visit

namespace Place

/-- The visits of the recursion are as many as the walk is given fuel for. -/
theorem length_visits (keys : VisitorKeys) (p : Place) :
    (p.visits keys).length = p.node.visitCount keys := by
  induction p using (isPreOrder_entered keys).induction with
  | step p ih =>
    have hinside : ((p.inside keys).map fun q => (q.visits keys).length) =
        (p.inside keys).map fun q => q.node.visitCount keys := List.map_congr_left ih
    rw [visits_eq, visitCount_node, List.length_append, List.length_cons, List.length_flatMap,
      hinside, List.length_singleton]
    omega

/-- The visits of the recursion are well nested. -/
theorem wellNested_visits (keys : VisitorKeys) (p : Place) : Visit.WellNested (p.visits keys) := by
  induction p using (isPreOrder_entered keys).induction with
  | step p ih =>
    rw [visits_eq]
    exact .around (Visit.wellNested_flatMap ih) .nil

end Place

namespace Walk

/-- With fuel for the visits that its items stand for, a stack is worked off by making them, if no
walk from an item goes back to a holder. -/
theorem run_eq_flatMap_due {keys : VisitorKeys} {stack : List Visit}
    (h : ∀ p, .enter p ∈ stack → p.NeverGoesBack keys) {fuel : Nat}
    (hfuel : (stack.flatMap (Visit.due keys)).length ≤ fuel) :
    run keys fuel stack = some (stack.flatMap (Visit.due keys)) := by
  induction stack generalizing fuel with
  | nil => cases fuel <;> rfl
  | cons visit stack ih =>
    rw [List.flatMap_cons, List.length_append] at hfuel
    have hrest {fuel : Nat} (hfuel : (stack.flatMap (Visit.due keys)).length ≤ fuel) :=
      ih (fun p hp => h p (List.mem_cons_of_mem _ hp)) hfuel
    obtain ⟨fuel, rfl⟩ := Nat.exists_eq_add_of_le (Nat.le_of_add_right_le hfuel)
    cases visit with
    | enter p =>
      have hp : p.NeverGoesBack keys := h p List.mem_cons_self
      rw [Visit.due, Place.length_visits] at hfuel ⊢
      rw [run_enter hp, hrest (by omega), List.flatMap_cons]
      rfl
    | leave p =>
      rw [Visit.due, List.length_singleton] at hfuel ⊢
      rw [Nat.add_comm, run, hrest (by omega), List.flatMap_cons]
      rfl

/-- A walk is the recursion. Under keys that only go down, a stack is worked off by making the
visits that its items stand for, whatever is on it; a walk from a place enters it, makes the visits
of the places it goes on to, in order, and leaves it; these visits are well nested, each place is
left as often as it is entered, and the places entered are those of the walk that only enters. -/
theorem visits?_eq_recursion {keys : VisitorKeys} (h : keys.OnlyDown) :
    (∀ (stack : List Visit) (fuel : Nat), (stack.flatMap (Visit.due keys)).length ≤ fuel →
        run keys fuel stack = some (stack.flatMap (Visit.due keys))) ∧
      ∀ p : Place,
        p.visits keys =
            .enter p :: (p.children keys).flatMap (Place.visits keys) ++ [.leave p] ∧
          visits? keys p = some (p.visits keys) ∧
          Visit.WellNested (p.visits keys) ∧
          (Visit.left (p.visits keys)).Perm (Visit.entered (p.visits keys)) ∧
          places? keys p = some (Visit.entered (p.visits keys)) := by
  have hstack (stack : List Visit) (fuel : Nat)
      (hfuel : (stack.flatMap (Visit.due keys)).length ≤ fuel) :
      run keys fuel stack = some (stack.flatMap (Visit.due keys)) :=
    run_eq_flatMap_due (fun p _ => Place.neverGoesBack h p) hfuel
  refine ⟨hstack, fun p => ⟨?_, ?_, p.wellNested_visits keys,
    (p.wellNested_visits keys).left_perm_entered, ?_⟩⟩
  · rw [Place.children_eq_inside (Place.not_goesBack h p), Place.visits_eq]
  · have hdue : [Visit.enter p].flatMap (Visit.due keys) = p.visits keys := List.append_nil _
    have hrun := hstack [.enter p] (p.node.visitCount keys)
    rw [hdue, Place.length_visits] at hrun
    exact hrun (Nat.le_refl _)
  · rw [Place.entered_visits h, places?_eq_some h]

/-- Keys that send a walk into the template of a program before its body, and into arguments
twice. -/
def sampleKeys : VisitorKeys :=
  [("Program", ["template_body", "body"]), ("CallExpression", ["arguments", "arguments"])]

/-- The walk of a component under the sample keys is the recursion. -/
theorem visits?_eq_recursion_sampleComponent :
    sampleKeys.OnlyDown ∧
      visits? sampleKeys (Place.root Node.sampleComponent) =
        some ((Place.root Node.sampleComponent).visits sampleKeys) ∧
      Visit.WellNested ((Place.root Node.sampleComponent).visits sampleKeys) ∧
      places? sampleKeys (Place.root Node.sampleComponent) =
        some (Visit.entered ((Place.root Node.sampleComponent).visits sampleKeys)) := by
  have hdown : sampleKeys.OnlyDown := by
    unfold VisitorKeys.OnlyDown parentField sampleKeys
    decide
  obtain ⟨-, hvisits, hnested, -, hplaces⟩ :=
    (visits?_eq_recursion hdown).2 (Place.root Node.sampleComponent)
  exact ⟨hdown, hvisits, hnested, hplaces⟩

end Walk

end TranslationKeys
