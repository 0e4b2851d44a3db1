import TranslationKeys.Proofs.Component.Positions

/-!
# Decoding a component

The bytes of a component are cut at positions that a search for doubled braces finds and at those
that its HTML tree gives. No cut of the first kind falls into a character, whatever the text, so
that a component whose tree gives none of the second kind that does is always decoded. What its
scripts hold is decoded from trees of their own.
-/

namespace TranslationKeys.Component

/-- The grammars that the code of a component can be parsed under. -/
def IsCodeGrammar (scriptGrammar : Option String) (grammar : String) : Prop :=
  grammar ∈ scriptGrammars ∨ scriptGrammar = some grammar

/-- Some script, expression or list of statements cannot be decoded from the tree that a grammar
gives it. -/
def CutsScripts (g : Grammars) (grammar : String) : Prop :=
  ∃ text offset, Script.parse g grammar text offset = .error .notUtf8 ∨
    Script.expression g grammar text offset = .error .notUtf8 ∨
    Script.statements g grammar text offset = .error .notUtf8

/-- The trees that a grammar gives scripts are aligned with them. -/
def AlignsScripts (g : Grammars) (grammar : String) : Prop :=
  ∀ script tree, g.parse grammar script = .ok tree → tree.root.IsAligned script.toList

section Scripts

variable {g : Grammars} {grammar : String}

/-- A grammar that cannot be used is no failure to decode. -/
theorem grammars_parse_ne_notUtf8 (g : Grammars) (grammar text : String) :
    g.parse grammar text ≠ .error .notUtf8 := by
  have hfails : FailsOnlyBy (· ≠ .notUtf8) (g.parse grammar text) := by
    refine .bind (fun e he => ?_) fun _ _ => ?_
    · unfold Grammars.require at he
      split at he
      · exact nomatch he
      · exact Except.error.inj he ▸ nofun
    · split
      · exact .pure _
      · exact fun e he => Except.error.inj he ▸ nofun
  exact fun h => hfails _ h rfl

/-- A step that starts by making a tree is no failure to decode if it is none for any tree. -/
theorem ne_notUtf8_of_tree {α : Type} {text : String} {next : SyntaxTree → Except Failure α}
    (h : ∀ tree, g.parse grammar text = .ok tree →
      FailsOnlyBy (· ≠ .notUtf8) (g.parse grammar text >>= next)) :
    (g.parse grammar text >>= next) ≠ .error .notUtf8 := by
  intro herror
  cases htree : g.parse grammar text with
  | ok tree => exact h tree htree _ herror rfl
  | error e =>
    rw [htree] at herror
    obtain rfl : e = .notUtf8 := Except.error.inj herror
    exact grammars_parse_ne_notUtf8 g grammar text htree

/-- A grammar whose trees are aligned with their scripts cuts no script. -/
theorem AlignsScripts.not_cutsScripts (h : AlignsScripts g grammar) : ¬ CutsScripts g grammar := by
  intro hcuts
  obtain ⟨text, offset, herror | herror | herror⟩ := hcuts
  · refine ne_notUtf8_of_tree (fun tree htree => ?_) herror
    refine (Script.failsOnlyBy_parse offset htree (h text tree htree)).imp fun e he => ?_
    rcases he with ⟨rfl, -⟩ | ⟨rfl, -⟩ <;> exact nofun
  · by_cases hblank : text.toList.all isBlank
    · have hnone : Script.expression g grammar text offset = .ok none := by
        rw [Script.expression, if_pos hblank]
        rfl
      cases hnone.symm.trans herror
    · rw [Script.expression, if_neg hblank] at herror
      refine ne_notUtf8_of_tree (fun tree htree => ?_) herror
      have hfails := Script.failsOnlyBy_expression offset htree (h _ tree htree)
      rw [Script.expression, if_neg hblank] at hfails
      exact hfails.imp fun _ he => he.1 ▸ nofun
  · refine ne_notUtf8_of_tree (fun tree htree => ?_) herror
    exact (Script.failsOnlyBy_statements offset htree (h text tree htree)).imp fun _ he =>
      he.1 ▸ nofun

end Scripts

section Decoding

variable {g : Grammars} {text : String} {tree : SyntaxTree} {scriptGrammar : Option String}

/-- A failure, if it is one to decode, comes with a slice of a component that cannot be decoded or
with a grammar that cuts scripts. -/
def IsTraced (g : Grammars) (scriptGrammar : Option String) (source : List UInt8) (root : TreeNode)
    (e : Failure) : Prop :=
  e = .notUtf8 → (∃ slice, IsDecoded source root slice ∧ Utf8.decode? slice = none) ∨
    ∃ grammar, IsCodeGrammar scriptGrammar grammar ∧ CutsScripts g grammar

/-- Failures to decode a part of a component are traced. -/
theorem decodesUnless_isTraced (source : List UInt8) (root : TreeNode) :
    DecodesUnless source root (IsTraced g scriptGrammar source root) where
  decode slice hslice e he _ := by
    refine .inl ⟨slice, hslice, ?_⟩
    unfold decodeBytes at he
    split at he
    · exact nomatch he
    · assumption
  unescape slice text _ _ := (Html.failsOnlyBy_unescape text).imp fun e he heq =>
    nomatch he.1.symm.trans heq

/-- Failures to read a part of a component are traced. -/
theorem readsUnless_isTraced {ctx : Context} (root : TreeNode)
    (hgrammar : IsCodeGrammar scriptGrammar ctx.grammar) :
    ReadsUnless ctx root (IsTraced ctx.grammars scriptGrammar ctx.source root) where
  toDecodesUnless := decodesUnless_isTraced ctx.source root
  expression text _ offset _ he heq :=
    .inr ⟨_, hgrammar, String.ofList text, offset, .inr (.inl (heq ▸ he))⟩
  statements text _ offset _ he heq :=
    .inr ⟨_, hgrammar, String.ofList text, offset, .inr (.inr (heq ▸ he))⟩

/-- Failures to parse a component are traced. -/
theorem parse_failsOnlyBy_isTraced (htree : g.parse Grammar.html text = .ok tree) :
    FailsOnlyBy (IsTraced g scriptGrammar (Utf8.encodeString text) tree.root)
      (parse g text scriptGrammar) := by
  have hblocks : ∀ block ∈ tree.root.namedChildren, block ∈ tree.root.nodes :=
    fun block hblock => TreeNode.mem_nodes_child tree.root.mem_nodes_self
      (TreeNode.mem_children_of_mem_namedChildren hblock)
  rw [parse_eq]
  refine .bind_of_eq_ok htree (.bind (failsOnlyBy_expressionGrammar
    (decodesUnless_isTraced _ _) hblocks scriptGrammar) fun grammar hgrammar => ?_)
  have hcode : IsCodeGrammar scriptGrammar grammar :=
    (expressionGrammar_mem hgrammar).imp_right And.left
  have hreads : ReadsUnless ⟨g, Utf8.encodeString text, grammar⟩ tree.root
      (IsTraced g scriptGrammar (Utf8.encodeString text) tree.root) :=
    readsUnless_isTraced tree.root hcode
  refine .bind (failsOnlyBy_blockNodes hreads hblocks (fun block hmem _ => ?_) none)
    fun _ _ => .pure _
  refine failsOnlyBy_scriptBlock hreads.toDecodesUnless (hblocks block hmem) ?_
  intro raw lang script _ _ _ e he heq
  have hscript :
      IsCodeGrammar scriptGrammar (if lang.isEmpty then grammar else grammarOfLang lang) := by
    split
    · exact hcode
    · exact .inl (grammarOfLang_mem lang)
  exact .inr ⟨_, hscript, String.ofList script, raw.start, .inl (heq ▸ he)⟩

/-- Scanning bytes never cuts a character. Whatever the tree of a component, parsing fails to decode
something only if one of the decoded slices is not decodable, or if a script cannot be decoded from
its own tree. If the tree is aligned with the text, every one of the slices is decoded to a part of
the text and encoded to the same bytes again, so that only a script is left to fail; and none is if
the trees of scripts are aligned with them as well. -/
theorem parse_decodes_slices (htree : g.parse Grammar.html text = .ok tree) :
    (∀ scriptGrammar, parse g text scriptGrammar = .error .notUtf8 →
      (∃ slice, IsDecoded (Utf8.encodeString text) tree.root slice ∧ Utf8.decode? slice = none) ∨
        ∃ grammar, IsCodeGrammar scriptGrammar grammar ∧ CutsScripts g grammar) ∧
      (tree.root.IsAligned text.toList →
        (∀ slice, IsDecoded (Utf8.encodeString text) tree.root slice →
          ∃ part, part <:+: text.toList ∧ Utf8.decode? slice = some part ∧
            Utf8.encode part = slice) ∧
        ∀ scriptGrammar,
          (parse g text scriptGrammar = .error .notUtf8 →
            ∃ grammar, IsCodeGrammar scriptGrammar grammar ∧ CutsScripts g grammar) ∧
          ((∀ grammar, IsCodeGrammar scriptGrammar grammar → AlignsScripts g grammar) →
            parse g text scriptGrammar ≠ .error .notUtf8)) := by
  have htraced (scriptGrammar : Option String)
      (herror : parse g text scriptGrammar = .error .notUtf8) :=
    parse_failsOnlyBy_isTraced htree _ herror rfl
  refine ⟨htraced, fun haligned => ?_⟩
  have hslices (slice : List UInt8)
      (hslice : IsDecoded (Utf8.encodeString text) tree.root slice) :
      ∃ part, part <:+: text.toList ∧ Utf8.decode? slice = some part ∧
        Utf8.encode part = slice := by
    obtain ⟨part, hpart, rfl⟩ := exists_encode_of_isDecoded haligned hslice
    exact ⟨part, hpart, Utf8.decode?_encode part, rfl⟩
  have hscript (scriptGrammar : Option String)
      (herror : parse g text scriptGrammar = .error .notUtf8) :
      ∃ grammar, IsCodeGrammar scriptGrammar grammar ∧ CutsScripts g grammar := by
    refine (htraced scriptGrammar herror).resolve_left fun hslice => ?_
    obtain ⟨slice, hslice, hnone⟩ := hslice
    obtain ⟨part, -, hpart, -⟩ := hslices slice hslice
    exact nomatch hpart.symm.trans hnone
  refine ⟨hslices, fun scriptGrammar => ⟨hscript scriptGrammar, fun haligns herror => ?_⟩⟩
  obtain ⟨grammar, hgrammar, hcuts⟩ := hscript scriptGrammar herror
  exact (haligns grammar hgrammar).not_cutsScripts hcuts

/-- The content of the template of the sample is a text and a mustache. -/
theorem fragmentsOf_sampleAccentsTree :
    fragmentsOf (Utf8.encodeString sampleAccents) sampleAccentsTree =
      [.text 26 28, .mustache 28 34] := by
  have hopens :
      findPairBetween? (Utf8.encodeString sampleAccents) openingByte 26 36 = some 28 := by
    decide +kernel
  have hcloses :
      findPairBetween? (Utf8.encodeString sampleAccents) closingByte 30 36 = some 34 := by
    decide +kernel
  change (scanFragments (Utf8.encodeString sampleAccents) 36 36 26).1 = _
  rw [scanFragments_of_mustache (by decide) hopens hcloses, scanFragments_of_not_lt (by decide)]

/-- All trees that the grammars of the sample give are aligned. -/
theorem alignsScripts_sampleAccentsGrammars (grammar : String) :
    AlignsScripts sampleAccentsGrammars grammar := by
  intro script tree htree
  have hall : ∀ entry ∈ sampleAccentsTrees, entry.2.IsAligned entry.1.toList := by decide +kernel
  exact hall _ (mem_sampleAccentsTrees (Grammars.tree?_of_parse htree))

/-- The letters of the sample are decoded whole, and nothing of it fails to be decoded. -/
theorem parse_decodes_slices_sampleAccents :
    ∃ tree, sampleAccentsGrammars.parse Grammar.html sampleAccents = .ok tree ∧
      tree.root.IsAligned sampleAccents.toList ∧
      IsDecoded (Utf8.encodeString sampleAccents) tree.root
        (Utf8.slice (Utf8.encodeString sampleAccents) 26 28) ∧
      IsDecoded (Utf8.encodeString sampleAccents) tree.root
        (Utf8.slice (Utf8.encodeString sampleAccents) 30 34) ∧
      (∃ part, part <:+: sampleAccents.toList ∧
        Utf8.decode? (Utf8.slice (Utf8.encodeString sampleAccents) 30 34) = some part ∧
        Utf8.encode part = Utf8.slice (Utf8.encodeString sampleAccents) 30 34) ∧
      parse sampleAccentsGrammars sampleAccents none ≠ .error .notUtf8 := by
  obtain ⟨tree, htree, hroot⟩ : ∃ tree,
      sampleAccentsGrammars.parse Grammar.html sampleAccents = .ok tree ∧
        tree.root = .mk "document" 0 47 true [sampleAccentsTree] [] := ⟨_, rfl, rfl⟩
  have haligned : tree.root.IsAligned sampleAccents.toList := by
    rw [hroot]
    decide +kernel
  have htemplate : sampleAccentsTree ∈ tree.root.nodes := by
    rw [hroot]
    exact .tail _ (.head _)
  have htext : IsDecoded (Utf8.encodeString sampleAccents) tree.root
      (Utf8.slice (Utf8.encodeString sampleAccents) 26 28) :=
    .text htemplate (by simp [fragmentsOf_sampleAccentsTree])
  have hmustache : IsDecoded (Utf8.encodeString sampleAccents) tree.root
      (Utf8.slice (Utf8.encodeString sampleAccents) 30 34) :=
    .mustache htemplate (by simp [fragmentsOf_sampleAccentsTree])
  obtain ⟨-, hslices⟩ := parse_decodes_slices htree
  obtain ⟨hdecoded, hparse⟩ := hslices haligned
  exact ⟨tree, htree, haligned, htext, hmustache, hdecoded _ hmustache,
    (hparse none).2 fun grammar _ => alignsScripts_sampleAccentsGrammars grammar⟩

end Decoding

end TranslationKeys.Component
