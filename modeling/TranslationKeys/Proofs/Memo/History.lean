import TranslationKeys.Proofs.Memo.Freezing
import TranslationKeys.Proofs.Memo.Recency

/-!
# Histories of a memoised function

A memoised function is called and its memo cleared, in any order. What can be seen of it are the
answers and the runs of the function behind it; from these alone follow which call runs the
function, what is answered without running it, which entries there are and how many hits are
counted.
-/

namespace TranslationKeys.Memo

/-- A request to a memoised function. -/
inductive Request where
  /-- A call. -/
  | call (args : Arguments)
  /-- Forgetting all results. -/
  | clear

/-- A call that was answered. -/
structure Use (ν : Type) where
  /-- The key of the call. -/
  key : Value
  /-- The answer. -/
  value : ν
  /-- Whether the function was run. -/
  ran : Bool

/-- A memoised function together with what has been seen of it. -/
structure Observed (σ ν : Type) where
  /-- The memo. -/
  memo : Memo Value ν
  /-- The state that the function works on. -/
  state : σ
  /-- How often the function has been run. -/
  runs : Nat := 0
  /-- The calls that were answered since the memo was last cleared, the latest first. -/
  uses : List (Use ν) := []

/-- A function that counts its runs. -/
def counted {σ ν : Type} (compute : σ → σ × Except Failure ν) (s : σ × Nat) :
    (σ × Nat) × Except Failure ν :=
  (((compute s.1).1, s.2 + 1), (compute s.1).2)

/-- The value of the latest run for a key. -/
def latestRun? {ν : Type} (uses : List (Use ν)) (key : Value) : Option ν :=
  (uses.find? fun u => u.ran && u.key == key).map Use.value

namespace Observed

variable {σ ν : Type} (compute : Arguments → σ → σ × Except Failure ν)

/-- The memo, the state and the number of runs after a call, and its answer. -/
def answer (o : Observed σ ν) (args : Arguments) : Memo Value ν × (σ × Nat) × Except Failure ν :=
  o.memo.callWith args (counted (compute args)) (o.state, o.runs)

/-- What is seen after a call that ended in the given way. -/
def record (o : Observed σ ν) (args : Arguments)
    (ending : Memo Value ν × (σ × Nat) × Except Failure ν) : Observed σ ν where
  memo := ending.1
  state := ending.2.1.1
  runs := ending.2.1.2
  uses := match args.key, ending.2.2 with
    | .ok key, .ok value => ⟨key, value, ending.2.1.2 != o.runs⟩ :: o.uses
    | _, _ => o.uses

/-- What is seen after a request. -/
def step (o : Observed σ ν) : Request → Observed σ ν
  | .clear => { o with memo := o.memo.clear, uses := [] }
  | .call args => o.record args (o.answer compute args)

/-- What is seen after a history of requests. -/
def after (o : Observed σ ν) (history : List Request) : Observed σ ν :=
  history.foldl (step compute) o

variable {compute}

/-- A call is refused before the memo is asked, or is a call of the memo. -/
inductive Ends (compute : Arguments → σ → σ × Except Failure ν) (o : Observed σ ν)
    (args : Arguments) : Memo Value ν × (σ × Nat) × Except Failure ν → Prop where
  /-- The arguments have no key or give the receiver again. -/
  | refused (f : Failure)
      (h : args.keywords.any (·.1 == receiverName) = true ∨ ∃ f, args.key = .error f) :
      Ends compute o args (o.memo, (o.state, o.runs), .error f)
  /-- The memo is asked for the key of the arguments. -/
  | called {key : Value} {ending : Memo Value ν × (σ × Nat) × Except Failure ν}
      (hkey : args.key = .ok key)
      (hcall : Memo.Ends o.memo key (counted (compute args)) (o.state, o.runs) ending) :
      Ends compute o args ending

/-- Every call ends in one of these ways. -/
theorem ends (compute : Arguments → σ → σ × Except Failure ν) (o : Observed σ ν)
    (args : Arguments) : Ends compute o args (o.answer compute args) := by
  rcases o.memo.callWith_cases args (counted (compute args)) (o.state, o.runs) with
    ⟨hrefused, f, hcall⟩ | ⟨key, hkey, hcall⟩
  · rw [answer, hcall]
    exact .refused f hrefused
  · rw [answer, hcall]
    exact .called hkey (ends_call _ _ _ _)

/-- However a call ends, the capacity stays. -/
theorem Ends.capacity_eq {o : Observed σ ν} {args : Arguments}
    {ending : Memo Value ν × (σ × Nat) × Except Failure ν} (h : Ends compute o args ending) :
    ending.1.capacity = o.memo.capacity := by
  cases h with
  | refused => rfl
  | called _ hcall => cases hcall <;> rfl

/-- Values that can be made can be compared. -/
theorem comparable_isWellFormed : Comparable fun v : Value => v.isWellFormed = true :=
  ⟨Value.same_symm, Value.same_trans⟩

/-- What the memo holds is what has been seen of it. -/
structure Faithful (o : Observed σ ν) : Prop where
  /-- The keys that were used can be made. -/
  keys : ∀ k ∈ o.uses.map Use.key, k.isWellFormed = true
  /-- The entries are those of the most recently used keys. -/
  tracks : Tracks (fun v : Value => v.isWellFormed = true) o.memo (o.uses.map Use.key)
  /-- The value of an entry is that of the latest run for its key. -/
  latest : ∀ e ∈ o.memo.entries, ∀ k : Value, k.isWellFormed = true → (e.1 == k) = true →
    latestRun? o.uses k = some e.2
  /-- The hits are the calls that were answered without a run. -/
  hits : o.memo.hits = o.uses.countP fun u => !u.ran

namespace Faithful

variable {o : Observed σ ν} {args : Arguments} {key : Value} {value : ν}

/-- The value that is found for a key is that of the latest run for it. -/
theorem latestRun?_eq (h : o.Faithful) (hkey : key.isWellFormed = true)
    (hfound : o.memo.find? key = some value) : latestRun? o.uses key = some value := by
  obtain ⟨e, he, hek, rfl⟩ := exists_mem_of_find?_eq_some hfound
  exact h.latest e he key hkey hek

/-- A hit is faithful to what was seen, and so is the memo after it. -/
theorem found (h : o.Faithful) (hkey : key.isWellFormed = true)
    (hfound : o.memo.find? key = some value) (state : σ) (runs : Nat) :
    Faithful ⟨o.memo.refresh key, state, runs, ⟨key, value, false⟩ :: o.uses⟩ where
  keys := List.forall_mem_cons.2 ⟨hkey, h.keys⟩
  tracks := h.tracks.refresh comparable_isWellFormed h.keys hkey (by simp [hfound])
  latest e he k hk hek := by
    simpa [latestRun?] using h.latest e (mem_of_mem_refresh he) k hk hek
  hits := by simp [Memo.refresh, h.hits]

/-- The memo after a run that gave a value is faithful to what was seen. -/
theorem computed (h : o.Faithful) (hkey : key.isWellFormed = true)
    (hnone : o.memo.find? key = none) (value : ν) (state : σ) (runs : Nat) :
    Faithful ⟨o.memo.store key value, state, runs, ⟨key, value, true⟩ :: o.uses⟩ where
  keys := List.forall_mem_cons.2 ⟨hkey, h.keys⟩
  tracks := h.tracks.store comparable_isWellFormed h.keys hkey hnone value
  latest e he k hk hek := by
    have hnone' : ∀ e ∈ o.memo.entries, ¬ (e.1 == key) = true :=
      List.find?_eq_none.1 (Option.map_eq_none_iff.1 hnone)
    cases hck : key == k with
    | true =>
      have hnew : e = (key, value) := by
        rcases List.mem_append.1 (mem_of_mem_trim he) with he | he
        · have hpe := h.tracks.of_mem_entries he
          have hne : (e.1 == key) = false := by simpa using hnone' e he
          have hmeet := comparable_isWellFormed.trans hpe hk hkey hek
            (comparable_isWellFormed.symm hkey hk hck)
          rw [hmeet] at hne
          exact nomatch hne
        · exact List.mem_singleton.1 he
      simp [latestRun?, hck, hnew]
    | false =>
      have hold : e ∈ o.memo.entries := by
        rcases List.mem_append.1 (mem_of_mem_trim he) with he | he
        · exact he
        · rw [List.mem_singleton.1 he, hck] at hek
          exact nomatch hek
      simpa [latestRun?, hck] using h.latest e hold k hk hek
  hits := by simp [Memo.store, h.hits]

/-- However a call ends, the memo stays faithful to what is seen. -/
theorem record (h : o.Faithful) (hargs : args.WellFormed)
    {ending : Memo Value ν × (σ × Nat) × Except Failure ν} (hends : Ends compute o args ending) :
    (o.record args ending).Faithful := by
  unfold Observed.record
  cases hends with
  | refused f => cases args.key <;> exact ⟨h.keys, h.tracks, h.latest, h.hits⟩
  | called hkey hcall =>
    have hwf := hargs.isWellFormed_key hkey
    cases hcall with
    | found hfound =>
      simp only [hkey, bne_self_eq_false]
      exact h.found hwf hfound _ _
    | @computed value t hnone hrun =>
      have hruns : o.runs + 1 = t.2 := congrArg (fun r => r.1.2) hrun
      simp only [hkey, ← hruns, bne_iff_ne.2 (Nat.succ_ne_self o.runs)]
      exact h.computed hwf hnone value _ _
    | failed =>
      simp only [hkey]
      exact ⟨h.keys, h.tracks, h.latest, h.hits⟩

/-- A request keeps the memo faithful to what is seen. -/
theorem step (h : o.Faithful) {request : Request}
    (hrequest : ∀ args, request = .call args → args.WellFormed) :
    (o.step compute request).Faithful := by
  cases request with
  | clear =>
    exact ⟨by simp [Observed.step], .of_entries_eq_nil rfl, by simp [Observed.step, clear],
      by simp [Observed.step, clear]⟩
  | call args => exact h.record (hrequest args rfl) (o.ends compute args)

/-- Whatever is requested, the memo stays faithful to what is seen. -/
theorem after (h : o.Faithful) {history : List Request}
    (hhistory : ∀ args, .call args ∈ history → args.WellFormed) :
    (o.after compute history).Faithful := by
  induction history generalizing o with
  | nil => exact h
  | cons request history ih =>
    refine ih (h.step fun args hargs => ?_) fun args hargs => ?_
    · exact hhistory args (hargs ▸ List.mem_cons_self)
    · exact hhistory args (List.mem_cons_of_mem _ hargs)

end Faithful

/-- No request changes the capacity. -/
theorem capacity_after (o : Observed σ ν) (history : List Request) :
    (o.after compute history).memo.capacity = o.memo.capacity := by
  induction history generalizing o with
  | nil => rfl
  | cons request history ih =>
    have hstep : (o.step compute request).memo.capacity = o.memo.capacity := by
      cases request with
      | clear => rfl
      | call args => exact (o.ends compute args).capacity_eq
    exact (ih _).trans hstep

/-- What holds of each key with the value that was computed for it holds of all entries. -/
theorem forall_mem_entries_after {p : Value → ν → Prop} {o : Observed σ ν} {history : List Request}
    (ho : ∀ e ∈ o.memo.entries, p e.1 e.2)
    (hrun : ∀ args key value s, .call args ∈ history → args.key = .ok key →
      (compute args s).2 = .ok value → p key value) :
    ∀ e ∈ (o.after compute history).memo.entries, p e.1 e.2 := by
  induction history generalizing o with
  | nil => exact ho
  | cons request history ih =>
    refine ih ?_ fun args key value s hargs => hrun args key value s (List.mem_cons_of_mem _ hargs)
    cases request with
    | clear => exact fun e he => absurd he List.not_mem_nil
    | call args =>
      intro e he
      have hends := o.ends compute args
      simp only [step, record] at he
      generalize o.answer compute args = ending at he hends
      cases hends with
      | refused => exact ho e he
      | called hkey hcall =>
        rcases hcall.origin he with he | ⟨rfl, t, hvalue⟩
        · exact ho e he
        · exact hrun args _ _ o.state List.mem_cons_self hkey (congrArg Prod.snd hvalue)

/-- A memoised function that has not been called yet. -/
def fresh (capacity : Option Int) (s : σ) : Observed σ ν where
  memo := { capacity }
  state := s

/-- The memo of a function that has not been called is faithful to what was seen: nothing. -/
theorem faithful_fresh (capacity : Option Int) (s : σ) :
    Faithful (fresh capacity s : Observed σ ν) :=
  ⟨by simp [fresh], .of_entries_eq_nil rfl, by simp [fresh], rfl⟩

/-- A call whose key is due runs the function and answers what it gives. -/
theorem Faithful.answer_of_isDue {o : Observed σ ν} (h : o.Faithful)
    (compute : Arguments → σ → σ × Except Failure ν) {args : Arguments} {key : Value}
    (hargs : args.WellFormed)
    (hreceiver : args.keywords.any (·.1 == receiverName) = false) (hkey : args.key = .ok key)
    (hdue : isDue o.memo.capacity (o.uses.map Use.key) key = true) :
    (o.answer compute args).2 = counted (compute args) (o.state, o.runs) := by
  have hnone : o.memo.find? key = none :=
    (h.tracks.find?_eq_none_iff comparable_isWellFormed h.keys (hargs.isWellFormed_key hkey)).2 hdue
  rw [answer, callWith, hreceiver, hkey]
  simp only [Bool.false_eq_true, if_false, call, hnone, counted]
  cases (compute args o.state).2 <;> rfl

/-- A call whose key is not due answers the value of the latest run, without running anything. -/
theorem Faithful.answer_of_not_isDue {o : Observed σ ν} (h : o.Faithful)
    (compute : Arguments → σ → σ × Except Failure ν) {args : Arguments} {key : Value}
    (hargs : args.WellFormed)
    (hreceiver : args.keywords.any (·.1 == receiverName) = false) (hkey : args.key = .ok key)
    (hdue : isDue o.memo.capacity (o.uses.map Use.key) key = false) :
    ∃ value, latestRun? o.uses key = some value ∧
      (o.answer compute args).2 = ((o.state, o.runs), .ok value) := by
  have hwf := hargs.isWellFormed_key hkey
  cases hfound : o.memo.find? key with
  | none =>
    have hdue' := (h.tracks.find?_eq_none_iff comparable_isWellFormed h.keys hwf).1 hfound
    exact nomatch hdue.symm.trans hdue'
  | some value =>
    refine ⟨value, h.latestRun?_eq hwf hfound, ?_⟩
    rw [answer, callWith, hreceiver, hkey]
    simp only [Bool.false_eq_true, if_false, call, hfound]

/-- A call that fails leaves the memo as it was. -/
theorem memo_eq_of_answer_eq_error (o : Observed σ ν) {args : Arguments} {f : Failure}
    (h : (o.answer compute args).2.2 = .error f) : (o.answer compute args).1 = o.memo := by
  have hends := o.ends compute args
  generalize o.answer compute args = ending at h hends
  cases hends with
  | refused => rfl
  | called _ hcall =>
    cases hcall with
    | failed => rfl
    | found | computed => exact nomatch h

/-- The law of the least recently used key. After any history, the entries are those of the most
recently used distinct keys in the order of their use, and the hits are the calls that were answered
without a run. A call runs the function exactly if its key was not used since the memo was last
cleared, or as many other keys as there is room for were used since its last use; else it answers
the value of the latest run for its key. A call that fails, or whose arguments have no key, leaves
the memo as it was. -/
theorem answer_by_recency (capacity : Option Int) (compute : Arguments → σ → σ × Except Failure ν)
    (s : σ) (history : List Request) (hhistory : ∀ args, .call args ∈ history → args.WellFormed) :
    let o := (fresh capacity s).after compute history
    let keys := o.uses.map Use.key
    List.Forall₂ SameKey (o.memo.entries.reverse.map Prod.fst) (kept capacity keys.eraseDups) ∧
      o.memo.hits = (o.uses.countP fun u => !u.ran) ∧
      (∀ args key, args.WellFormed → args.keywords.any (·.1 == receiverName) = false →
        args.key = .ok key →
          ((o.step compute (.call args)).runs = o.runs + 1 ↔ isDue capacity keys key = true) ∧
          (isDue capacity keys key = true →
            (o.answer compute args).2.2 = (compute args o.state).2) ∧
          (isDue capacity keys key = false →
            (o.step compute (.call args)).runs = o.runs ∧
              ∃ value, latestRun? o.uses key = some value ∧
                (o.answer compute args).2.2 = .ok value)) ∧
      ∀ args,
        ((∃ f, args.key = .error f) → ∃ f, (o.answer compute args).2.2 = .error f) ∧
          ∀ f, (o.answer compute args).2.2 = .error f →
            (o.step compute (.call args)).memo = o.memo := by
  intro o keys
  have hfaithful : o.Faithful := (faithful_fresh capacity s).after hhistory
  have hcapacity : o.memo.capacity = capacity := capacity_after _ history
  refine ⟨?_, hfaithful.hits, fun args key hargs hreceiver hkey => ?_, fun args => ⟨?_, ?_⟩⟩
  · rw [← hcapacity, List.forall₂_map_left_iff]
    exact hfaithful.tracks.imp fun e k hek => hek.2
  · rw [← hcapacity]
    cases hdue : isDue o.memo.capacity keys key with
    | true =>
      have hanswer := hfaithful.answer_of_isDue compute hargs hreceiver hkey hdue
      simp [step, record, hanswer, counted]
    | false =>
      obtain ⟨value, hvalue, hanswer⟩ :=
        hfaithful.answer_of_not_isDue compute hargs hreceiver hkey hdue
      simp [step, record, hanswer, hvalue]
  · intro h
    obtain ⟨f, hkey⟩ := h
    have hends := o.ends compute args
    generalize o.answer compute args = ending at hends
    cases hends with
    | refused f => exact ⟨f, rfl⟩
    | called hkey' => exact nomatch hkey.symm.trans hkey'
  · exact fun f hf => o.memo_eq_of_answer_eq_error hf

/-- Calls with one number each. -/
def numberCalls (numbers : List Int) : List Request :=
  numbers.map fun i => .call { positional := [.int i] }

/-- A function that answers how often it has been run before. -/
def tally (_ : Arguments) (n : Nat) : Nat × Except Failure Nat := (n + 1, .ok n)

/-- With room for two keys, after calls with one, two, one and three, two is forgotten and one is
known. -/
theorem answer_by_recency_of_four_calls :
    (∀ args, .call args ∈ numberCalls [1, 2, 1, 3] → args.WellFormed) ∧
      let o := (fresh (some 2) 0).after tally (numberCalls [1, 2, 1, 3])
      (o.step tally (.call { positional := [.int 2] })).runs = o.runs + 1 ∧
        (o.step tally (.call { positional := [.int 1] })).runs = o.runs ∧
        (o.answer tally { positional := [.int 1] }).2.2 = .ok 0 := by
  have hwf (i : Int) : Arguments.WellFormed { positional := [.int i] } :=
    ⟨by simp [Value.isWellFormed], by simp, .nil⟩
  have hhistory : ∀ args, .call args ∈ numberCalls [1, 2, 1, 3] → args.WellFormed := by
    simp only [numberCalls, List.mem_map, Request.call.injEq]
    intro args h
    obtain ⟨i, -, rfl⟩ := h
    exact hwf i
  obtain ⟨-, -, hcalls, -⟩ := answer_by_recency (some 2) tally 0 _ hhistory
  refine ⟨hhistory, ?_⟩
  intro o
  have htwo := hcalls { positional := [.int 2] } (.tuple [.int 2]) (hwf 2) rfl rfl
  have hone := hcalls { positional := [.int 1] } (.tuple [.int 1]) (hwf 1) rfl rfl
  obtain ⟨hruns, value, hvalue, hanswer⟩ := hone.2.2 (by decide +kernel)
  have hzero : value = 0 := Option.some.inj (hvalue.symm.trans (by decide +kernel))
  exact ⟨htwo.1.2 (by decide +kernel), hruns, hzero ▸ hanswer⟩

end Observed

end TranslationKeys.Memo
