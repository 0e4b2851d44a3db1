import TranslationKeys.Failure
import TranslationKeys.Proofs.Related

/-!
# Causes of failures

Which causes a step can fail for, said so that it composes: a run of steps fails only for causes of
its steps. A step whose causes are all ruled out succeeds.
-/

namespace TranslationKeys

/-- A step whose result is changed succeeds exactly if it does before. -/
theorem map_eq_ok_iff {ε α β : Type} {x : Except ε α} {f : α → β} {b : β} :
    f <$> x = .ok b ↔ ∃ a, x = .ok a ∧ f a = b := by
  cases x <;> simp [Functor.map, Except.map]

/-- Whenever a step fails, it does so for one of the given causes. -/
def FailsOnlyBy {α : Type} (cause : Failure → Prop) (x : Except Failure α) : Prop :=
  ∀ e, x = .error e → cause e

namespace FailsOnlyBy

variable {α β : Type} {cause : Failure → Prop}

/-- A step that succeeds fails for no cause. -/
theorem ok (a : α) : FailsOnlyBy cause (.ok a) :=
  fun _ h => nomatch h

/-- A step whose result is given fails for no cause. -/
theorem pure (a : α) : FailsOnlyBy cause (Pure.pure a) :=
  ok a

/-- A step that is known to succeed fails for no cause. -/
theorem of_eq_ok {x : Except Failure α} {a : α} (h : x = .ok a) : FailsOnlyBy cause x :=
  h ▸ ok a

/-- Two steps one after the other fail only for causes of the two. -/
theorem bind {x : Except Failure α} {f : α → Except Failure β} (hx : FailsOnlyBy cause x)
    (hf : ∀ a, x = .ok a → FailsOnlyBy cause (f a)) : FailsOnlyBy cause (x >>= f) := by
  intro e h
  cases hstep : x with
  | error e' =>
    rw [hstep] at h
    obtain rfl : e' = e := Except.error.inj h
    exact hx e' hstep
  | ok a =>
    rw [hstep] at h
    exact hf a hstep e h

/-- After a step that is known to succeed, only what follows can fail. -/
theorem bind_of_eq_ok {x : Except Failure α} {f : α → Except Failure β} {a : α} (hx : x = .ok a)
    (hf : FailsOnlyBy cause (f a)) : FailsOnlyBy cause (x >>= f) := by
  rw [hx]
  exact hf

/-- A step whose result is changed fails only for causes of the step. -/
theorem map {x : Except Failure α} (hx : FailsOnlyBy cause x) (f : α → β) :
    FailsOnlyBy cause (f <$> x) := by
  intro e h
  cases hstep : x with
  | error e' =>
    rw [hstep] at h
    obtain rfl : e' = e := Except.error.inj h
    exact hx e' hstep
  | ok a =>
    rw [hstep] at h
    exact nomatch h

/-- A step for each item of a list fails only for causes of the single steps. -/
theorem mapM {f : α → Except Failure β} {xs : List α} (h : ∀ x ∈ xs, FailsOnlyBy cause (f x)) :
    FailsOnlyBy cause (xs.mapM f) := by
  intro e herror
  obtain ⟨before, x, after, rfl, -, hx⟩ := mapM_eq_error_iff.1 herror
  exact h x (List.mem_append_right _ List.mem_cons_self) e hx

/-- A step for an item that may be absent fails only for causes of the step. -/
theorem mapM_option {f : α → Except Failure β} {x : Option α}
    (h : ∀ a, x = some a → FailsOnlyBy cause (f a)) : FailsOnlyBy cause (x.mapM f) := by
  cases x with
  | none => exact pure none
  | some a => exact bind (h a rfl) fun b _ => pure (some b)

/-- More causes can be allowed. -/
theorem imp {cause' : Failure → Prop} {x : Except Failure α} (h : FailsOnlyBy cause x)
    (himp : ∀ e, cause e → cause' e) : FailsOnlyBy cause' x :=
  fun e herror => himp e (h e herror)

/-- A step whose causes are all ruled out succeeds. -/
theorem exists_ok {x : Except Failure α} (h : FailsOnlyBy cause x) (hno : ∀ e, ¬ cause e) :
    ∃ a, x = .ok a := by
  cases hx : x with
  | error e => exact absurd (h e hx) (hno e)
  | ok a => exact ⟨a, rfl⟩

end FailsOnlyBy

end TranslationKeys
