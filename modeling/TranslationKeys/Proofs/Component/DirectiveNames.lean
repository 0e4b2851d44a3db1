import TranslationKeys.Component.DirectiveKey
import TranslationKeys.Proofs.Text.Splitting
import Mathlib.Data.List.TakeDrop

/-!
# Names of directives

A shorthand is read as the long form that it stands for. The long form of a directive is its marker,
its name, the argument behind a colon, and each modifier behind a point; a directive whose parts can
be told apart in it is read back from it.
-/

namespace TranslationKeys.Directive

section Reading

variable {name rest : List Char}

/-- A text without a colon is all that stands before the first one. -/
theorem span_append (h : ':' ∉ name) (hrest : ∀ c ∈ rest.head?, c = ':') :
    (name ++ rest).span (· != ':') = (name, rest) := by
  have hname : ∀ c ∈ name, (c != ':') = true := fun c hc =>
    bne_iff_ne.2 fun heq => h (heq ▸ hc)
  rw [List.span_eq_takeWhile_dropWhile, List.takeWhile_append_of_pos hname,
    List.dropWhile_append_of_pos hname]
  cases rest with
  | nil => simp
  | cons c rest => simp [hrest c rfl]

/-- The first colon of a long form ends the name. -/
theorem ofLongForm_append (h : ':' ∉ name) (rest : List Char) :
    ofLongForm (name ++ ':' :: rest) = ofRest name rest [] := by
  rw [ofLongForm, span_append h (by simp)]

/-- A long form without a colon has no argument. -/
theorem ofLongForm_of_notMem {body : List Char} {modifiers : List (List Char)} (h : ':' ∉ body)
    (hsplit : splitAtEach '.' body = name :: modifiers) :
    ofLongForm body = ofParts name [] modifiers := by
  have hspan : body.span (· != ':') = (body, []) := by
    simpa using span_append h (show ∀ c ∈ ([] : List Char).head?, c = ':' by simp)
  simp only [ofLongForm, hspan, hsplit]

/-- Further modifiers come after those that are written out. -/
theorem ofRest_append (name rest : List Char) (more : List (List Char)) :
    ofRest name rest more =
      { ofRest name rest [] with
        modifiers := (ofRest name rest []).modifiers ++ more.filter (!·.isEmpty) } := by
  obtain ⟨argument, modifiers, hsplit⟩ := List.exists_cons_of_ne_nil (splitAtEach_ne_nil '.' rest)
  simp [ofRest, hsplit, ofParts]

end Reading

section Writing

/-- Modifiers as they are written, each behind a point. -/
def writeModifiers (modifiers : List (List Char)) : List Char :=
  modifiers.flatMap ('.' :: ·)

/-- The long form of a directive. -/
def longForm (d : Directive) : List Char :=
  "v-".toList ++ d.name ++ d.argument.elim [] (':' :: ·) ++ writeModifiers d.modifiers

/-- The parts of a directive can be told apart in its long form. -/
structure IsWritable (d : Directive) : Prop where
  /-- The name ends at the first colon or point. -/
  name : ':' ∉ d.name ∧ '.' ∉ d.name
  /-- An argument is not empty and ends at the first point. -/
  argument : ∀ argument ∈ d.argument, argument ≠ [] ∧ '.' ∉ argument
  /-- A modifier is not empty and ends at the next point. -/
  modifiers : ∀ modifier ∈ d.modifiers, modifier ≠ [] ∧ '.' ∉ modifier
  /-- Without an argument no modifier has a colon, which would start one. -/
  colons : d.argument = none → ∀ modifier ∈ d.modifiers, ':' ∉ modifier

variable {first : List Char} {modifiers : List (List Char)}

/-- Written modifiers are split into themselves. -/
theorem splitAtEach_writeModifiers (hfirst : '.' ∉ first)
    (hmodifiers : ∀ modifier ∈ modifiers, '.' ∉ modifier) :
    splitAtEach '.' (first ++ writeModifiers modifiers) = first :: modifiers := by
  induction modifiers generalizing first with
  | nil => simpa [writeModifiers] using splitAtEach_of_notMem hfirst
  | cons modifier modifiers ih =>
    obtain ⟨hmodifier, hrest⟩ := List.forall_mem_cons.1 hmodifiers
    have hcons : writeModifiers (modifier :: modifiers) =
        '.' :: (modifier ++ writeModifiers modifiers) := rfl
    rw [hcons, splitAtEach_append hfirst, ih hmodifier hrest]

/-- No colon is written with modifiers that have none. -/
theorem notMem_writeModifiers (h : ∀ modifier ∈ modifiers, ':' ∉ modifier) :
    ':' ∉ writeModifiers modifiers := by
  intro hmem
  obtain ⟨modifier, hmodifier, hcolon⟩ := List.mem_flatMap.1 hmem
  rcases List.mem_cons.1 hcolon with heq | hcolon
  · exact absurd heq (by decide)
  · exact h modifier hmodifier hcolon

/-- Modifiers that are not empty are all kept. -/
theorem filter_modifiers_eq (h : ∀ modifier ∈ modifiers, modifier ≠ [] ∧ '.' ∉ modifier) :
    modifiers.filter (!·.isEmpty) = modifiers :=
  List.filter_eq_self.2 fun modifier hmodifier => by simpa using (h modifier hmodifier).1

/-- A directive is read back from its long form. -/
theorem parse?_longForm {d : Directive} (h : d.IsWritable) : parse? d.longForm = some d := by
  obtain ⟨name, argument, modifiers⟩ := d
  obtain ⟨⟨hcolon, hpoint⟩, hargument, hmodifiers, hcolons⟩ := h
  have hpoints : ∀ modifier ∈ modifiers, '.' ∉ modifier := fun m hm => (hmodifiers m hm).2
  have hkept : modifiers.filter (!·.isEmpty) = modifiers := filter_modifiers_eq hmodifiers
  cases argument with
  | none =>
    have hbody : ':' ∉ name ++ writeModifiers modifiers := by
      simpa [hcolon] using notMem_writeModifiers (hcolons rfl)
    have hsplit := splitAtEach_writeModifiers hpoint hpoints
    calc parse? (longForm ⟨name, none, modifiers⟩)
        = some (ofLongForm (name ++ writeModifiers modifiers)) := by simp [longForm, parse?]
      _ = some (ofParts name [] modifiers) := by rw [ofLongForm_of_notMem hbody hsplit]
      _ = some ⟨name, none, modifiers⟩ := by simp [ofParts, hkept]
  | some argument =>
    obtain ⟨hne, hargument⟩ := hargument argument rfl
    have hsplit := splitAtEach_writeModifiers hargument hpoints
    calc parse? (longForm ⟨name, some argument, modifiers⟩)
        = some (ofLongForm (name ++ ':' :: (argument ++ writeModifiers modifiers))) := by
          simp [longForm, parse?]
      _ = some (ofRest name (argument ++ writeModifiers modifiers) []) := by
          rw [ofLongForm_append hcolon]
      _ = some ⟨name, some argument, modifiers⟩ := by simp [ofRest, hsplit, ofParts, hne, hkept]

end Writing

/-- A shorthand is read as the long form that it stands for, whatever follows it; a leading point
adds a modifier at the end. And a directive whose parts can be told apart in its long form is read
back from it. -/
theorem parse?_shorthands_and_longForms :
    (∀ rest : List Char, ∃ bind on slot : Directive,
      (parse? ("v-bind:".toList ++ rest) = some bind ∧ parse? (':' :: rest) = some bind ∧
        parse? ('.' :: rest) =
          some { bind with modifiers := bind.modifiers ++ ["prop".toList] }) ∧
      (parse? ("v-on:".toList ++ rest) = some on ∧ parse? ('@' :: rest) = some on) ∧
      parse? ("v-slot:".toList ++ rest) = some slot ∧ parse? ('#' :: rest) = some slot) ∧
    ∀ d : Directive, d.IsWritable → parse? d.longForm = some d := by
  refine ⟨fun rest => ?_, fun d => parse?_longForm⟩
  have hlong (name : List Char) (hname : ':' ∉ name) :
      parse? ('v' :: '-' :: (name ++ ':' :: rest)) = some (ofRest name rest []) :=
    congrArg some (ofLongForm_append hname rest)
  refine ⟨ofRest "bind".toList rest [], ofRest "on".toList rest [], ofRest "slot".toList rest [],
    ⟨hlong "bind".toList (by decide), rfl, ?_⟩, ⟨hlong "on".toList (by decide), rfl⟩,
    hlong "slot".toList (by decide), rfl⟩
  exact congrArg some (ofRest_append _ rest [propModifier])

/-- A directive without a name whose argument and modifier have colons. -/
def sampleDirective : Directive :=
  ⟨[], some "update:modelValue".toList, ["a:b".toList, "once".toList]⟩

/-- The sample is read back from its long form. -/
theorem parse?_longForm_sampleDirective :
    sampleDirective.IsWritable ∧ sampleDirective.longForm = "v-:update:modelValue.a:b.once".toList ∧
      parse? "v-:update:modelValue.a:b.once".toList = some sampleDirective := by
  have hwritable : sampleDirective.IsWritable := by
    refine ⟨by decide, ?_, by decide, fun h => nomatch h⟩
    intro argument hargument
    obtain rfl := Option.some.inj hargument
    decide
  exact ⟨hwritable, by decide, parse?_shorthands_and_longForms.2 sampleDirective hwritable⟩

end TranslationKeys.Directive
