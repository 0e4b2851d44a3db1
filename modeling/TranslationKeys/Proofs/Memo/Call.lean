import TranslationKeys.Memo.Arguments
import TranslationKeys.Proofs.Related

/-!
# What a call of a memo can do

A call finds a value, computes one, or fails, and nothing else. Every entry afterwards was there
before or is what was computed, so that what holds of all results holds of all entries.
-/

namespace TranslationKeys.Memo

variable {κ ν ε σ : Type} [BEq κ] {m : Memo κ ν} {key : κ} {compute : σ → σ × Except ε ν} {s : σ}

/-- The three ways a call can end: with the memo and the state afterwards, and the result. -/
inductive Ends (m : Memo κ ν) (key : κ) (compute : σ → σ × Except ε ν) (s : σ) :
    Memo κ ν × σ × Except ε ν → Prop where
  /-- The value of the key is known. -/
  | found {value : ν} (hfound : m.find? key = some value) :
      Ends m key compute s (m.refresh key, s, .ok value)
  /-- A value is computed. -/
  | computed {value : ν} {t : σ} (hnone : m.find? key = none)
      (hrun : compute s = (t, .ok value)) : Ends m key compute s (m.store key value, t, .ok value)
  /-- The computation fails. -/
  | failed {e : ε} {t : σ} (hnone : m.find? key = none) (hrun : compute s = (t, .error e)) :
      Ends m key compute s (m, t, .error e)

/-- Every call ends in one of the three ways. -/
theorem ends_call (m : Memo κ ν) (key : κ) (compute : σ → σ × Except ε ν) (s : σ) :
    Ends m key compute s (m.call key compute s) := by
  unfold call
  cases hfind : m.find? key with
  | some value => exact .found hfind
  | none =>
    cases hrun : compute s with
    | mk t result =>
      cases result with
      | ok value => exact .computed hfind hrun
      | error e => exact .failed hfind hrun

/-- A value that is found is that of an entry whose key equals the one looked up. -/
theorem exists_mem_of_find?_eq_some {value : ν} (h : m.find? key = some value) :
    ∃ e ∈ m.entries, (e.1 == key) = true ∧ e.2 = value := by
  obtain ⟨e, he, rfl⟩ := Option.map_eq_some_iff.1 h
  have hek : (e.1 == key) = true := by simpa using List.find?_some he
  exact ⟨e, List.mem_of_find?_eq_some he, hek, rfl⟩

/-- The entries that are left after trimming are among those before. -/
theorem mem_of_mem_trim {κ ν : Type} {capacity : Option Int} {entries : List (κ × ν)} {e : κ × ν}
    (h : e ∈ trim capacity entries) : e ∈ entries := by
  unfold trim at h
  split at h
  · exact h
  · split at h
    · exact List.mem_of_mem_drop h
    · exact h

/-- Using a key leaves the entries the same but for their order. -/
theorem mem_of_mem_refresh {e : κ × ν} (h : e ∈ (m.refresh key).entries) : e ∈ m.entries := by
  rcases List.mem_append.1 h with h | h <;> exact (List.mem_filter.1 h).1

/-- Every entry after a call was there before, or has the key of the call and the value that was
computed. -/
theorem Ends.origin {ending : Memo κ ν × σ × Except ε ν} (h : Ends m key compute s ending)
    {e : κ × ν} (he : e ∈ ending.1.entries) :
    e ∈ m.entries ∨ e.1 = key ∧ ∃ t, compute s = (t, .ok e.2) := by
  cases h with
  | found hfound => exact .inl (mem_of_mem_refresh he)
  | computed hnone hrun =>
    rcases List.mem_append.1 (mem_of_mem_trim he) with he | he
    · exact .inl he
    · rw [List.mem_singleton.1 he]
      exact .inr ⟨rfl, _, hrun⟩
  | failed => exact .inl he

/-- A call by arguments is refused, or is the call of their key. -/
theorem callWith_cases (m : Memo Value ν) (args : Arguments) (compute : σ → σ × Except Failure ν)
    (s : σ) :
    ((args.keywords.any (·.1 == receiverName) = true ∨ ∃ f, args.key = .error f) ∧
        ∃ f, m.callWith args compute s = (m, s, .error f)) ∨
      ∃ key, args.key = .ok key ∧ m.callWith args compute s = m.call key compute s := by
  unfold callWith
  cases hreceiver : args.keywords.any (·.1 == receiverName) with
  | true => exact .inl ⟨.inl rfl, _, rfl⟩
  | false =>
    cases hkey : args.key with
    | error f => exact .inl ⟨.inr ⟨f, rfl⟩, f, rfl⟩
    | ok key => exact .inr ⟨key, rfl, rfl⟩

end TranslationKeys.Memo
