import TranslationKeys.Proofs.Node.FirstSeen
import TranslationKeys.Proofs.Node.Preorder
import Mathlib.Data.List.Forall2

/-!
# Extraction is exact

Which keys a tree uses is said here by three rules on single places and by the pre-order of the
tree, without a stack, a collector or parent links. In a linked tree whose fields hold the declared
kinds, extraction cannot fail, and what it returns are the keys contributed in pre-order, first in
the template and then in the program, each where it is first seen.
-/

namespace TranslationKeys

/-- The three rules by which a place contributes a key. -/
inductive Contributes : Place → Text → Prop where
  /-- A call of a translator whose first argument is a truthy literal. -/
  | call {mark literalMark : Mark Node} {callee : Node} {value : Scalar} {raw : String}
      {rest above : List Node} {optional : Bool} {name : String} {key : Text}
      (hname : callee.calledName? = some name) (htranslator : name ∈ ["t", "$t", "tc", "$tc"])
      (htruthy : value.isTruthy = true) (htext : value.scriptText = .ok key) :
      Contributes ⟨.call mark callee (.literal literalMark value raw :: rest) optional, above⟩ key
  /-- A directive named `t` whose value is a truthy literal. -/
  | directive {mark keyMark nameMark containerMark literalMark : Mark Node} {rawName : String}
      {argument : Option Node} {modifiers above : List Node} {value : Scalar} {raw : String}
      {key : Text} (htruthy : value.isTruthy = true) (htext : value.scriptText = .ok key) :
      Contributes
        ⟨.tagAttribute mark true
          (.directiveKey keyMark (.templateName nameMark "t" rawName) argument modifiers)
          (some (.container containerMark (some (.literal literalMark value raw)))), above⟩ key
  /-- A plain attribute named `path`, not empty, of what a translation element holds. -/
  | path {mark keyMark literalMark elementMark : Mark Node} {rawName name rawElement text : String}
      {holder startTag : Node} {children above : List Node} {closing : Option Node}
      (hname : name ∈ ["i18n", "i18n-t"]) (htext : text ≠ "") :
      Contributes
        ⟨.tagAttribute mark false (.templateName keyMark "path" rawName)
          (some (.templateLiteral literalMark text)),
          holder :: .element elementMark name rawElement startTag children closing :: above⟩
        (Text.ofString text)

/-- An answer that cannot fail and finds exactly the keys of which something holds. -/
def Finds (answer : Except Failure (Option Text)) (holds : Text → Prop) : Prop :=
  ∃ found, answer = .ok found ∧ ∀ key, found = some key ↔ holds key

/-- An answer that finds nothing finds the keys of which nothing holds. -/
theorem finds_none {holds : Text → Prop} (h : ∀ key, ¬ holds key) : Finds (.ok none) holds :=
  ⟨none, rfl, fun key => ⟨(nomatch ·), fun hkey => absurd hkey (h key)⟩⟩

namespace Node

/-- A fitting node yields a key as a literal exactly if it is a truthy literal with that text. -/
theorem literalKey?_finds {n : Node} (hfit : n.FieldsFit) :
    Finds n.literalKey? fun key => ∃ mark value raw,
      n = .literal mark value raw ∧ value.isTruthy = true ∧ value.scriptText = .ok key := by
  cases n with
  | literal mark value raw =>
    obtain ⟨text, htext⟩ := Scalar.IsToken.exists_scriptText hfit
    by_cases htruthy : value.isTruthy = true
    · refine ⟨some text, by simp [literalKey?, htruthy, htext], fun key => ⟨?_, ?_⟩⟩
      · intro h
        cases h
        exact ⟨mark, value, raw, rfl, htruthy, htext⟩
      · intro h
        obtain ⟨_, _, _, ⟨⟩, -, hkey⟩ := h
        rw [htext] at hkey
        exact congrArg some (Except.ok.inj hkey)
    · refine ⟨none, by simp [literalKey?, htruthy], fun key => ⟨(nomatch ·), ?_⟩⟩
      intro h
      obtain ⟨_, _, _, ⟨⟩, htrue, -⟩ := h
      exact absurd htrue htruthy
  | _ => exact finds_none fun key ⟨_, _, _, heq, _⟩ => nomatch heq

end Node

namespace Place

/-- The links along a way from a root are structural: every node on it but the root is linked to the
one that holds it, and the root has no parent. -/
def LinksHold : List Node → Prop
  | [] => True
  | [root] => root.givenParent? = none
  | n :: holder :: above => n.mark.parent = .holder ∧ LinksHold (holder :: above)

/-- Where links are structural, the parent link of a place leads to its holder. -/
theorem parent?_eq_of_linksHold {n : Node} {above : List Node} (h : LinksHold (n :: above)) :
    parent? ⟨n, above⟩ = match above with
      | [] => none
      | holder :: rest => some ⟨holder, rest⟩ := by
  cases above with
  | nil =>
    have hroot : n.givenParent? = none := h
    unfold Node.givenParent? at hroot
    unfold parent?
    cases hlink : n.mark.parent with
    | given m => simp [hlink] at hroot
    | absent | holder => rfl
  | cons holder rest =>
    have hlink : n.mark.parent = .holder := h.1
    simp [parent?, hlink]

/-- Where links are structural, the element above a place is the holder of its holder. -/
theorem elementNameAbove?_eq_some_iff {n : Node} {above : List Node} {name : String}
    (h : LinksHold (n :: above)) :
    elementNameAbove? ⟨n, above⟩ = some name ↔
      ∃ holder mark raw tag children closing rest,
        above = holder :: .element mark name raw tag children closing :: rest := by
  unfold elementNameAbove?
  rw [parent?_eq_of_linksHold h]
  cases above with
  | nil => simp
  | cons holder rest =>
    rw [Option.bind_some, parent?_eq_of_linksHold h.2]
    cases rest with
    | nil => simp
    | cons element rest => cases element <;> simp

/-- The holders of a place below another one are linked like those of that place. -/
theorem linksHold_of_mem_below {keys : VisitorKeys} {p q : Place}
    (hlinks : LinksHold (p.node :: p.above)) (hheld : p.node.HoldsLinked)
    (hq : q ∈ p.below keys) : LinksHold (q.node :: q.above) := by
  obtain ⟨key, hmem, hdown⟩ := exists_field_of_mem_below hq
  rw [hdown]
  exact ⟨hheld.parent_eq_holder hmem, hlinks⟩

/-- A call whose arguments fit yields exactly the key of the first rule. -/
theorem callKey?_finds {mark : Mark Node} {callee : Node} {arguments above : List Node}
    {optional : Bool} (hfit : ∀ argument ∈ arguments, argument.FieldsFit) :
    Finds (callKey? callee arguments)
      (Contributes ⟨.call mark callee arguments optional, above⟩) := by
  unfold callKey?
  split
  · rename_i name first rest hname
    by_cases htranslator : name ∈ translatorNames
    · obtain ⟨found, hfound, hiff⟩ := Node.literalKey?_finds (hfit first List.mem_cons_self)
      refine ⟨found, by simp [htranslator, hfound], fun key => (hiff key).trans ⟨?_, ?_⟩⟩
      · intro h
        obtain ⟨literalMark, value, raw, rfl, htruthy, htext⟩ := h
        exact .call hname htranslator htruthy htext
      · intro hcontributes
        cases hcontributes with
        | call _ _ htruthy htext => exact ⟨_, _, _, rfl, htruthy, htext⟩
    · rw [if_neg (by simpa using htranslator)]
      apply finds_none
      intro key hkey
      cases hkey with
      | call hcalled hmem =>
        rw [hname] at hcalled
        exact htranslator (Option.some.inj hcalled ▸ hmem)
  · rename_i hnone
    apply finds_none
    intro key hkey
    cases hkey with
    | call hcalled => exact hnone _ _ _ hcalled rfl

/-- A directive that fits yields exactly the key of the second rule. -/
theorem directiveKey?_finds {mark : Mark Node} {key : Node} {value : Option Node}
    {above : List Node} (hkey : key.FieldsFit)
    (hvalue : ∀ container ∈ value, container.Everywhere Node.FieldsFit) :
    Finds (directiveKey? key value) (Contributes ⟨.tagAttribute mark true key value, above⟩) := by
  unfold directiveKey?
  split
  · rename_i keyMark nameNode argument modifiers
    obtain ⟨nameMark, name, rawName, rfl⟩ := Node.eq_templateName_of_isOfKind hkey.1
    by_cases hname : name = keyDirective
    · subst hname
      simp only [Node.namesTranslation, beq_self_eq_true]
      split
      · rename_i containerMark expression
        have hmem :
            expression ∈ (Node.container containerMark (some expression)).field "expression" := by
          simp [Node.field, Node.fields]
        have hexpression := (hvalue _ rfl).of_mem_field hmem
        obtain ⟨found, hfound, hiff⟩ := Node.literalKey?_finds hexpression.here
        refine ⟨found, hfound, fun key => (hiff key).trans ⟨?_, ?_⟩⟩
        · intro h
          obtain ⟨literalMark, value, raw, rfl, htruthy, htext⟩ := h
          exact .directive htruthy htext
        · intro hcontributes
          cases hcontributes with
          | directive htruthy htext => exact ⟨_, _, _, rfl, htruthy, htext⟩
      · rename_i hnone
        apply finds_none
        intro key hkey
        cases hkey with
        | directive => exact hnone _ _ rfl
    · have hfalse : (name == keyDirective) = false := by simpa using hname
      simp only [Node.namesTranslation, hfalse]
      apply finds_none
      intro key hkey
      cases hkey with
      | directive => exact hname rfl
  · rename_i hnone
    apply finds_none
    intro key hkey
    cases hkey with
    | directive => exact hnone _ _ _ _ rfl

/-- A plain attribute with structural links yields exactly the key of the third rule. -/
theorem pathKey?_finds {mark : Mark Node} {key : Node} {value : Option Node} {above : List Node}
    (hlinks : LinksHold (.tagAttribute mark false key value :: above)) :
    Finds (.ok (pathKey? ⟨.tagAttribute mark false key value, above⟩ key value))
      (Contributes ⟨.tagAttribute mark false key value, above⟩) := by
  refine ⟨_, rfl, fun found => ⟨fun h => ?_, fun h => ?_⟩⟩
  · unfold pathKey? at h
    split at h
    · rename_i keyMark name rawName literalMark text
      split at h
      · rename_i hall
        simp only [Bool.and_eq_true, beq_iff_eq, Option.any_eq_true, Bool.not_eq_true'] at hall
        obtain ⟨⟨rfl, element, helement, hmem⟩, htext⟩ := hall
        obtain ⟨holder, elementMark, raw, tag, children, closing, rest, rfl⟩ :=
          (elementNameAbove?_eq_some_iff hlinks).1 helement
        obtain rfl := Option.some.inj h
        exact .path (by simpa [keyElements] using hmem) (by simpa using htext)
      · exact nomatch h
    · exact nomatch h
  · cases h with
    | @path _ keyMark literalMark elementMark rawName name rawElement text holder startTag children
        above closing hname htext =>
      have helement := (elementNameAbove?_eq_some_iff hlinks).2
        ⟨holder, elementMark, rawElement, startTag, children, closing, above, rfl⟩
      have hmem : name ∈ keyElements := hname
      have hnonempty : text.isEmpty = false := by simpa using htext
      simp [pathKey?, helement, hmem, hnonempty, keyAttribute]

/-- What is known of every place that a walk through a linked tree of declared kinds enters. -/
structure IsSound (p : Place) : Prop where
  /-- All fields hold the declared kinds. -/
  fits : p.node.Everywhere Node.FieldsFit
  /-- All held nodes are linked. -/
  linked : p.node.Everywhere Node.HoldsLinked
  /-- The links along the way from the root are structural. -/
  links : LinksHold (p.node :: p.above)

/-- What is known of a place is known of the places below it. -/
theorem IsSound.of_mem_below {keys : VisitorKeys} {p q : Place} (h : p.IsSound)
    (hq : q ∈ p.below keys) : q.IsSound := by
  obtain ⟨key, hmem, -⟩ := exists_field_of_mem_below hq
  exact ⟨h.fits.of_mem_field hmem, h.linked.of_mem_field hmem,
    linksHold_of_mem_below h.links h.linked.here hq⟩

/-- Every sound place yields exactly the keys that it contributes. -/
theorem IsSound.key?_finds {p : Place} (h : p.IsSound) : Finds p.key? (Contributes p) := by
  obtain ⟨node, above⟩ := p
  have hfield (key : String) {m : Node} (hm : m ∈ node.field key) : m.Everywhere Node.FieldsFit :=
    h.fits.of_mem_field hm
  unfold key?
  cases node with
  | call mark callee arguments optional =>
    refine callKey?_finds fun argument hargument => (hfield "arguments" ?_).here
    simpa [Node.field, Node.fields, List.lookup_cons] using hargument
  | tagAttribute mark directive key value =>
    cases directive with
    | false => exact pathKey?_finds h.links
    | true =>
      refine directiveKey?_finds (hfield "key" ?_).here fun container hcontainer =>
        hfield "value" ?_
      · simp [Node.field, Node.fields]
      · simpa [Node.field, Node.fields, List.lookup_cons] using hcontainer
  | _ =>
    apply finds_none
    intro key hkey
    cases hkey

/-- A walk from a sound place cannot fail, and it finds what the places of its pre-order contribute,
place by place. -/
theorem IsSound.keysAlong {keys : VisitorKeys} (hkeys : keys.OnlyDown) {p : Place} (h : p.IsSound) :
    ∃ found : List (Option Text),
      List.Forall₂ (fun q f => ∀ key, f = some key ↔ Contributes q key) (p.preorder keys) found ∧
        p.keysAlong keys = .ok (found.filterMap id) := by
  have hall : ∀ q ∈ p.preorder keys, q.IsSound :=
    forall_mem_preorder (fun _ hp _ hq => IsSound.of_mem_below hp hq) h
  have hmap (places : List Place) (hplaces : ∀ q ∈ places, q.IsSound) :
      ∃ found : List (Option Text), places.mapM key? = .ok found ∧
        List.Forall₂ (fun q f => ∀ key, f = some key ↔ Contributes q key) places found := by
    induction places with
    | nil => exact ⟨[], rfl, .nil⟩
    | cons q places ih =>
      obtain ⟨f, hf, hiff⟩ := (hplaces q List.mem_cons_self).key?_finds
      obtain ⟨found, hfound, hrest⟩ := ih fun x hx => hplaces x (List.mem_cons_of_mem _ hx)
      exact ⟨f :: found, by rw [List.mapM_cons, hf, hfound]; rfl, .cons hiff hrest⟩
  obtain ⟨found, hfound, hiff⟩ := hmap _ hall
  refine ⟨found, hiff, ?_⟩
  unfold Place.keysAlong
  rw [Walk.visits?_eq_some hkeys]
  simp only [entered_visits hkeys, hfound]
  rfl

end Place

namespace Node

/-- The places of a program's template in pre-order under the default visitor keys. -/
def templatePlaces (n : Node) : List Place :=
  match n with
  | program _ _ (some template) => ((Place.root n).down template).preorder VisitorKeys.default
  | _ => []

/-- The root of a linked tree of declared kinds is sound. -/
theorem isSound_root {n : Node} (hfits : n.Everywhere FieldsFit) (hlinked : n.IsLinkedTree) :
    (Place.root n).IsSound :=
  ⟨hfits, hlinked.held, hlinked.root⟩

/-- The template of a linked tree of declared kinds is walked without a failure, and what is found
is what the places of its pre-order contribute. -/
theorem templateKeys_eq {n : Node} (hfits : n.Everywhere FieldsFit) (hlinked : n.IsLinkedTree) :
    ∃ found : List (Option Text),
      List.Forall₂ (fun q f => ∀ key, f = some key ↔ Contributes q key) n.templatePlaces found ∧
        n.templateKeys = .ok (found.filterMap id) := by
  cases n with
  | program mark body templateBody =>
    cases templateBody with
    | none => exact ⟨[], .nil, rfl⟩
    | some template =>
      have hmem : template ∈ (program mark body (some template)).field "template_body" := by
        simp [field, fields, List.lookup_cons]
      have htemplate : ((Place.root (program mark body (some template))).down template).IsSound :=
        ⟨hfits.of_mem_field hmem, hlinked.held.of_mem_field hmem,
          hlinked.held.here.parent_eq_holder hmem, (isSound_root hfits hlinked).links⟩
      exact htemplate.keysAlong VisitorKeys.onlyDown_default
  | _ => exact ⟨[], .nil, rfl⟩

/-- Extraction is exact. In a linked tree of declared kinds, under visitor keys none of whose names
is the parent link in snake case, the keys are those that the places of the template and then the
places of the program contribute by the three rules, in pre-order, each where it is first seen. The
program is walked by the fields that were supplied for a kind, in snake case, and by the default
ones where none were. -/
theorem keysUnder_eq_contributed {n : Node} {given : Value} {supplied : Option VisitorKeys}
    (hfits : n.Everywhere FieldsFit) (hlinked : n.IsLinkedTree)
    (hgiven : VisitorKeys.ofValue given = .ok supplied)
    (hdown : ∀ entry ∈ supplied.getD [], ∀ name ∈ entry.2,
      VisitorKeys.snakeCased name ≠ "parent") :
    (∃ found : List (Option Text),
      List.Forall₂ (fun p f => ∀ key, f = some key ↔ Contributes p key)
        (n.templatePlaces ++ (Place.root n).preorder (VisitorKeys.effective supplied)) found ∧
      n.keysUnder given = .ok (found.filterMap id).eraseDups) ∧
    ∀ kind, (VisitorKeys.effective supplied).lookup kind =
      (((supplied.getD []).reverse.lookup kind).map (·.map VisitorKeys.snakeCased)).or
        (VisitorKeys.default.lookup kind) := by
  obtain ⟨inTemplate, htemplate, hkeys⟩ := templateKeys_eq hfits hlinked
  obtain ⟨inScript, hscript, hkeys'⟩ :=
    (isSound_root hfits hlinked).keysAlong (VisitorKeys.onlyDown_effective hdown)
  refine ⟨⟨inTemplate ++ inScript, List.rel_append htemplate hscript, ?_⟩,
    VisitorKeys.lookup_effective supplied⟩
  rw [List.filterMap_append, ← firstSeen_eq_eraseDups]
  unfold keysUnder
  rw [hkeys, hgiven]
  simp only [bind, Except.bind, hkeys']
  rfl

/-- A plain path attribute, linked to its holder. -/
def sampleAttribute : Node :=
  tagAttribute { parent := .holder } false (templateName { parent := .holder } "path" "path")
    (some (templateLiteral { parent := .holder } "hello"))

/-- The opening tag of the sample attribute, linked to its element. -/
def sampleTag : Node := startTag { parent := .holder } [sampleAttribute] false

/-- A translation element with the sample attribute, linked to its holder. -/
def sampleElement : Node := element { parent := .holder } "i18n" "i18n" sampleTag [] none

/-- A translator call, linked to its holder. -/
def sampleCall : Node :=
  call { parent := .holder } (identifier { parent := .holder } "$t")
    [literal { parent := .holder } (.int 7) "7"] false

/-- A component with a translator call in its script and a path attribute in its template. -/
def sampleComponent : Node := program {} [sampleCall] (some sampleElement)

/-- The sample component holds declared kinds only, and its nodes are linked. -/
theorem sampleComponent_everywhere :
    sampleComponent.Everywhere fun n => n.FieldsFit ∧ n.HoldsLinked := by
  have hleaf {n : Node} (hn : n.fields = []) (hfit : n.FieldsFit) :
      n.Everywhere fun n => n.FieldsFit ∧ n.HoldsLinked :=
    everywhere_of_fields_eq_nil ⟨hfit, by simp [HoldsLinked, hn]⟩ hn
  have hseven : (7 : Int).natAbs < Nat.pow 10 Integer.maxDigits := by decide +kernel
  have hcall : sampleCall.Everywhere fun n => n.FieldsFit ∧ n.HoldsLinked := by
    refine .intro ⟨trivial, by simp [HoldsLinked, sampleCall, fields, mark]⟩ ?_
    simpa [sampleCall, fields] using And.intro
      (hleaf (n := identifier { parent := .holder } "$t") rfl trivial)
      (hleaf (n := literal { parent := .holder } (.int 7) "7") rfl hseven)
  have hattribute : sampleAttribute.Everywhere fun n => n.FieldsFit ∧ n.HoldsLinked := by
    refine .intro ⟨?_, by simp [HoldsLinked, sampleAttribute, fields, mark]⟩ ?_
    · simp [FieldsFit, sampleAttribute, isOfKind, isGeneric, tag]
    · simpa [sampleAttribute, fields] using And.intro
        (hleaf (n := templateName { parent := .holder } "path" "path") rfl trivial)
        (hleaf (n := templateLiteral { parent := .holder } "hello") rfl trivial)
  have htag : sampleTag.Everywhere fun n => n.FieldsFit ∧ n.HoldsLinked := by
    refine .intro ⟨?_, by simp [HoldsLinked, sampleTag, sampleAttribute, fields, mark]⟩ ?_
    · simp [FieldsFit, sampleTag, sampleAttribute, isOfKind, isGeneric, tag]
    · simpa [sampleTag, fields] using hattribute
  have helement : sampleElement.Everywhere fun n => n.FieldsFit ∧ n.HoldsLinked := by
    refine .intro ⟨?_, by simp [HoldsLinked, sampleElement, sampleTag, fields, mark]⟩ ?_
    · simp [FieldsFit, sampleElement, sampleTag, isOfKind, isGeneric, tag]
    · simpa [sampleElement, fields] using htag
  refine .intro ⟨?_, ?_⟩ ?_
  · simp [FieldsFit, sampleComponent, sampleElement, isOfKind, isGeneric, tag]
  · simp [HoldsLinked, sampleComponent, sampleCall, sampleElement, fields, mark]
  · simpa [sampleComponent, fields] using And.intro hcall helement

/-- The sample component is extracted exactly under keys that enter the template from the script as
well, given in camel case. -/
theorem keysUnder_sampleComponent :
    (∃ found : List (Option Text),
      List.Forall₂ (fun p f => ∀ key, f = some key ↔ Contributes p key)
        (sampleComponent.templatePlaces ++ (Place.root sampleComponent).preorder
          (VisitorKeys.effective (some [("Program", ["templateBody", "body"])]))) found ∧
      sampleComponent.keysUnder
        (.map [(.str "Program", .list [.str "templateBody", .str "body"])]) =
          .ok (found.filterMap id).eraseDups) ∧
      (VisitorKeys.effective (some [("Program", ["templateBody", "body"])])).lookup "Program" =
        some ["template_body", "body"] := by
  have hgiven : VisitorKeys.ofValue
      (.map [(.str "Program", .list [.str "templateBody", .str "body"])]) =
        .ok (some [("Program", ["templateBody", "body"])]) := rfl
  obtain ⟨hfound, hkeys⟩ := keysUnder_eq_contributed
    (sampleComponent_everywhere.imp fun _ h => h.1)
    ⟨rfl, sampleComponent_everywhere.imp fun _ h => h.2⟩ hgiven (by decide +kernel)
  exact ⟨hfound, (hkeys "Program").trans (by decide +kernel)⟩

end Node

end TranslationKeys
