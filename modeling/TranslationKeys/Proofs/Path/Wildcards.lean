import TranslationKeys.Path.Wildcard
import Mathlib.Data.List.Basic
import Mathlib.Data.List.TakeDrop
import Mathlib.Data.List.TakeWhile

/-!
# Wildcards in joined patterns

A pattern that is joined from two by a slash has the parts of the first, a slash, and the parts of
the second, unless a bracket that the first leaves open is closed in the second: a bracket
expression may span a slash. Texts that match the two, joined by a slash, then match the whole.
-/

namespace TranslationKeys.Wildcard

section Brackets

variable {cs body after rest : List Char}

/-- A span is the longest beginning of a list of which something holds. -/
theorem span_eq_iff {p : Char → Bool} {first last : List Char} :
    cs.span p = (first, last) ↔
      cs = first ++ last ∧ (∀ c ∈ first, p c = true) ∧ ∀ c ∈ last.head?, p c = false := by
  rw [List.span_eq_takeWhile_dropWhile, Prod.mk.injEq]
  constructor
  · rintro ⟨rfl, rfl⟩
    refine ⟨List.takeWhile_append_dropWhile.symm, fun c hc => List.mem_takeWhile_imp hc, ?_⟩
    intro c hc
    have hhead := List.head?_dropWhile_not p cs
    rw [hc] at hhead
    simpa using hhead
  · rintro ⟨rfl, hfirst, hlast⟩
    rw [List.takeWhile_append_of_pos hfirst, List.dropWhile_append_of_pos hfirst]
    cases last with
    | nil => simp
    | cons c last =>
      have hc : ¬ p c = true := by simp [hlast c rfl]
      rw [List.takeWhile_cons_of_neg hc, List.dropWhile_cons_of_neg hc]
      simp

/-- What stands at the start of a bracket expression without closing it, and the rest. -/
def lead : List Char → List Char × List Char
  | '!' :: ']' :: rest => (['!', ']'], rest)
  | '!' :: rest => (['!'], rest)
  | ']' :: rest => ([']'], rest)
  | rest => ([], rest)

/-- A bracket expression is what comes first without closing it, and then all up to the next
bracket. -/
theorem bracketBody?_eq (cs : List Char) :
    bracketBody? cs = match (lead cs).2.span (· != ']') with
      | (body, _ :: after) => some ((lead cs).1 ++ body, after)
      | (_, []) => none := rfl

/-- The lead of a bracket expression is its beginning. -/
theorem lead_eq (cs : List Char) : cs = (lead cs).1 ++ (lead cs).2 := by
  unfold lead
  split <;> rfl

/-- What follows a bracket expression does not change its lead, if the expression has more than the
lead or a slash follows. -/
theorem lead_append (h : (lead cs).2 ≠ [] ∨ rest.head? = some '/') :
    lead (cs ++ rest) = ((lead cs).1, (lead cs).2 ++ rest) := by
  -- The lead has two characters at most, so it is decided by the first two.
  rcases cs with _ | ⟨c, _ | ⟨d, cs⟩⟩
  · obtain ⟨tail, rfl⟩ := List.head?_eq_some_iff.1 (h.resolve_left (· rfl))
    rfl
  · by_cases hc : c = '!'
    · subst hc
      obtain ⟨tail, rfl⟩ := List.head?_eq_some_iff.1 (h.resolve_left (· rfl))
      rfl
    · by_cases hc' : c = ']'
      · subst hc'
        rfl
      · simp [lead, hc, hc']
  · by_cases hc : c = '!'
    · subst hc
      by_cases hd : d = ']'
      · subst hd
        rfl
      · simp [lead, hd]
    · by_cases hc' : c = ']'
      · subst hc'
        rfl
      · simp [lead, hc, hc']

/-- The body of a bracket expression that is closed ends at a bracket, and it is closed there
whatever follows. -/
theorem bracketBody?_append_of_some (h : bracketBody? cs = some (body, after)) :
    cs = body ++ ']' :: after ∧
      ∀ rest, bracketBody? (cs ++ rest) = some (body, after ++ rest) := by
  rw [bracketBody?_eq] at h
  split at h
  · rename_i inner c tail hspan
    obtain ⟨rfl, rfl⟩ := Prod.mk.inj (Option.some.inj h)
    obtain ⟨heq, hinner, hc⟩ := span_eq_iff.1 hspan
    have hc : c = ']' := by simpa using hc c rfl
    subst hc
    have hne : (lead cs).2 ≠ [] := by simp [heq]
    constructor
    · rw [List.append_assoc, ← heq]
      exact lead_eq cs
    · intro rest
      have hspan' : ((lead cs).2 ++ rest).span (· != ']') = (inner, ']' :: (tail ++ rest)) :=
        span_eq_iff.2 ⟨by simp [heq], hinner, by simp⟩
      rw [bracketBody?_eq, lead_append (.inl hne)]
      simp only [hspan']
  · exact nomatch h

/-- A bracket expression that is not closed stays so if a slash and no closing bracket follow. -/
theorem bracketBody?_append_of_none (h : bracketBody? cs = none) (hrest : ']' ∉ rest) :
    bracketBody? (cs ++ '/' :: rest) = none := by
  rw [bracketBody?_eq] at h
  split at h
  · exact nomatch h
  · rename_i inner hspan
    obtain ⟨heq, hinner, -⟩ := span_eq_iff.1 hspan
    have hspan' : ((lead cs).2 ++ '/' :: rest).span (· != ']') =
        ((lead cs).2 ++ '/' :: rest, []) := by
      refine span_eq_iff.2 ⟨by simp, ?_, by simp⟩
      rw [heq, List.append_nil, List.forall_mem_append, List.forall_mem_cons]
      refine ⟨hinner, by decide, fun c hc => ?_⟩
      simp only [bne_iff_ne]
      exact fun hclosing => hrest (hclosing ▸ hc)
    rw [bracketBody?_eq, lead_append (.inr rfl)]
    simp only [hspan']

end Brackets

section Parts

/-- What follows a bracket expression is shorter than what it starts. -/
theorem length_lt_of_bracketBody? {cs body after : List Char}
    (h : bracketBody? cs = some (body, after)) : after.length < cs.length := by
  obtain ⟨rfl, -⟩ := bracketBody?_append_of_some h
  rw [List.length_append, List.length_cons]
  omega

/-- More fuel than characters changes nothing. -/
theorem parseWithin_of_length_le {fuel : Nat} {cs : List Char} (h : cs.length ≤ fuel) :
    parseWithin fuel cs = parse cs := by
  have hall (n : Nat) : ∀ fuel fuel' cs, cs.length ≤ n → cs.length ≤ fuel → cs.length ≤ fuel' →
      parseWithin fuel cs = parseWithin fuel' cs := by
    induction n with
    | zero =>
      intro fuel fuel' cs hn _ _
      obtain rfl := List.length_eq_zero_iff.1 (Nat.le_zero.1 hn)
      cases fuel <;> cases fuel' <;> rfl
    | succ n ih =>
      intro fuel fuel' cs hn hfuel hfuel'
      cases cs with
      | nil => cases fuel <;> cases fuel' <;> rfl
      | cons c cs =>
        cases fuel with
        | zero => exact absurd hfuel (by simp)
        | succ fuel =>
          cases fuel' with
          | zero => exact absurd hfuel' (by simp)
          | succ fuel' =>
            simp only [List.length_cons, Nat.add_le_add_iff_right] at hn hfuel hfuel'
            have hrest := ih fuel fuel' cs hn hfuel hfuel'
            simp only [parseWithin, hrest]
            split
            · rfl
            · split
              · rfl
              · split
                · split
                  · rename_i body after hbody
                    have hlt := length_lt_of_bracketBody? hbody
                    rw [ih fuel fuel' after (by omega) (by omega) (by omega)]
                  · rfl
                · rfl
  exact hall cs.length fuel cs.length cs le_rfl h le_rfl

/-- The parts of a pattern by its first character. -/
theorem parse_cons (c : Char) (cs : List Char) :
    parse (c :: cs) =
      if c == '*' then consRun (parse cs)
      else if c == '?' then .any :: parse cs
      else if c == '[' then
        match bracketBody? cs with
        | some (body, after) => ofBracket body :: parse after
        | none => .only c :: parse cs
      else .only c :: parse cs := by
  rw [parse, List.length_cons, parseWithin]
  simp only [parseWithin_of_length_le (le_refl cs.length)]
  cases hbody : bracketBody? cs with
  | none => rfl
  | some found =>
    simp only [parseWithin_of_length_le (length_lt_of_bracketBody? hbody).le]

/-- A run in front of parts that are followed by another part. -/
theorem consRun_append {w : Wildcard} (hw : w ≠ .run) (first second : List Wildcard) :
    consRun (first ++ w :: second) = consRun first ++ w :: second := by
  cases first with
  | nil => cases w <;> first | exact absurd rfl hw | rfl
  | cons v first => cases v <;> rfl

/-- A run in front leaves the parts behind it. -/
theorem mem_consRun {w : Wildcard} {ws : List Wildcard} (h : w ∈ ws) : w ∈ consRun ws := by
  unfold consRun
  split
  · exact h
  · exact List.mem_cons_of_mem _ h

/-- A pattern joined from two by a slash has the parts of both around it, unless a bracket that the
first leaves open is closed in the second. -/
theorem parse_append_slash {cs rest : List Char} (h : .only '[' ∈ parse cs → ']' ∉ rest) :
    parse (cs ++ '/' :: rest) = parse cs ++ .only '/' :: parse rest := by
  induction hlen : cs.length using Nat.strongRecOn generalizing cs with
  | _ n ih =>
    cases cs with
    | nil =>
      rw [List.nil_append, parse_cons]
      rfl
    | cons c cs =>
      have hstep {tail : List Char} (htail : tail.length ≤ cs.length)
          (hopen : .only '[' ∈ parse tail → .only '[' ∈ parse (c :: cs)) :
          parse (tail ++ '/' :: rest) = parse tail ++ .only '/' :: parse rest :=
        ih tail.length (by rw [← hlen, List.length_cons]; omega) (fun ho => h (hopen ho)) rfl
      have hhead := parse_cons c cs
      rw [List.cons_append, parse_cons, hhead]
      split
      · rename_i hc
        rw [if_pos hc] at hhead
        rw [hstep le_rfl fun ho => hhead ▸ mem_consRun ho, consRun_append (by simp)]
      · rename_i hrun
        rw [if_neg hrun] at hhead
        split
        · rename_i hc
          rw [if_pos hc] at hhead
          rw [hstep le_rfl fun ho => hhead ▸ List.mem_cons_of_mem _ ho, List.cons_append]
        · rename_i hany
          rw [if_neg hany] at hhead
          split
          · rename_i hc
            rw [if_pos hc] at hhead
            cases hbody : bracketBody? cs with
            | some found =>
              obtain ⟨body, after⟩ := found
              rw [hbody] at hhead
              have hlt := (length_lt_of_bracketBody? hbody).le
              rw [(bracketBody?_append_of_some hbody).2]
              simp only
              rw [hstep hlt fun ho => hhead ▸ List.mem_cons_of_mem _ ho, List.cons_append]
            | none =>
              rw [hbody] at hhead
              have hrest : ']' ∉ rest := h (by rw [hhead, eq_of_beq hc]; exact List.mem_cons_self)
              rw [bracketBody?_append_of_none hbody hrest]
              simp only
              rw [hstep le_rfl fun ho => hhead ▸ List.mem_cons_of_mem _ ho, List.cons_append]
          · rename_i hc
            rw [if_neg hc] at hhead
            rw [hstep le_rfl fun ho => hhead ▸ List.mem_cons_of_mem _ ho, List.cons_append]

end Parts

section Matching

/-- The ends of a list are its suffixes. -/
theorem mem_suffixes_iff {α : Type} {xs ys : List α} : ys ∈ suffixes xs ↔ ys <:+ xs := by
  induction xs with
  | nil => simp [suffixes]
  | cons x xs ih => rw [suffixes, List.mem_cons, ih, List.suffix_cons_iff]

/-- Texts that match two lists of parts match, one after the other, the parts of both. -/
theorem matchesAll_append {first second : List Wildcard} {cs ds : List Char}
    (hfirst : matchesAll first cs = true) (hsecond : matchesAll second ds = true) :
    matchesAll (first ++ second) (cs ++ ds) = true := by
  induction first generalizing cs with
  | nil =>
    obtain rfl : cs = [] := by simpa [matchesAll] using hfirst
    exact hsecond
  | cons w first ih =>
    cases w with
    | run =>
      simp only [matchesAll, List.any_eq_true, mem_suffixes_iff] at hfirst
      obtain ⟨rest, ⟨before, rfl⟩, hrest⟩ := hfirst
      simp only [List.cons_append, matchesAll, List.any_eq_true, mem_suffixes_iff]
      exact ⟨rest ++ ds, ⟨before, by simp⟩, ih hrest⟩
    | any | only | among =>
      cases cs with
      | nil => simp [matchesAll] at hfirst
      | cons c cs =>
        simp only [matchesAll, Bool.and_eq_true] at hfirst
        simp only [List.cons_append, matchesAll, Bool.and_eq_true]
        exact ⟨hfirst.1, ih hfirst.2⟩

/-- Texts that match two patterns match, joined by a slash, the two joined by a slash, unless a
bracket that the first leaves open is closed in the second. -/
theorem matchesText_append_slash {first second cs ds : List Char}
    (hopen : .only '[' ∈ parse first → ']' ∉ second)
    (hfirst : matchesText first cs = true) (hsecond : matchesText second ds = true) :
    matchesText (first ++ '/' :: second) (cs ++ '/' :: ds) = true := by
  rw [matchesText_eq] at *
  rw [parse_append_slash hopen]
  refine matchesAll_append hfirst ?_
  simpa [matchesAll, accepts] using hsecond

/-- A run of any length matches every text. -/
theorem matchesText_runs (cs : List Char) : matchesText ['*', '*'] cs = true := by
  have hparse : parse ['*', '*'] = [.run] := rfl
  rw [matchesText_eq, hparse]
  simp only [matchesAll, List.any_eq_true, mem_suffixes_iff]
  exact ⟨[], List.nil_suffix, rfl⟩

/-- A plain text at the start of a pattern has its characters as parts. -/
theorem parse_append_of_plain {first : List Char} (h : hasMagic first = false)
    (second : List Char) : parse (first ++ second) = first.map .only ++ parse second := by
  induction first with
  | nil => rfl
  | cons c first ih =>
    simp only [hasMagic, List.any_cons, Bool.or_eq_false_iff, isMagic] at h
    obtain ⟨⟨⟨hrun, hany⟩, hclass⟩, hrest⟩ := h
    simp [parse_cons, hrun, hany, hclass, ih hrest]

/-- Characters in front of other parts match a text that starts with them, and the other parts the
rest of it. -/
theorem matchesAll_only_append {first cs : List Char} {second : List Wildcard} :
    matchesAll (first.map .only ++ second) cs = true ↔
      ∃ rest, cs = first ++ rest ∧ matchesAll second rest = true := by
  induction first generalizing cs with
  | nil => simp
  | cons c first ih =>
    cases cs with
    | nil => simp [matchesAll]
    | cons d cs =>
      simp only [List.map_cons, List.cons_append, matchesAll, accepts, Bool.and_eq_true,
        beq_iff_eq, ih, List.cons.injEq]
      constructor
      · rintro ⟨rfl, rest, rfl, hrest⟩
        exact ⟨rest, ⟨rfl, rfl⟩, hrest⟩
      · rintro ⟨rest, ⟨rfl, rfl⟩, hrest⟩
        exact ⟨rfl, rest, rfl, hrest⟩

/-- A pattern that starts with a plain text matches what starts with it and goes on with a match of
the rest. -/
theorem matchesText_append_of_plain {first : List Char} (h : hasMagic first = false)
    (second cs : List Char) :
    matchesText (first ++ second) cs = true ↔
      ∃ rest, cs = first ++ rest ∧ matchesText second rest = true := by
  simp only [matchesText_eq, parse_append_of_plain h, matchesAll_only_append]

/-- A plain text matches itself and nothing else. -/
theorem matchesText_iff_of_plain {cs ds : List Char} (h : hasMagic cs = false) :
    matchesText cs ds = true ↔ ds = cs := by
  have hnil (rest : List Char) : matchesText [] rest = true ↔ rest = [] := by
    rw [matchesText_eq]
    exact List.isEmpty_iff
  have happend := matchesText_append_of_plain h [] ds
  simpa [hnil] using happend

end Matching

end TranslationKeys.Wildcard
