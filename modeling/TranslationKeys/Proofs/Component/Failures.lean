import TranslationKeys.Proofs.Component.Slices
import TranslationKeys.Proofs.Html.References
import TranslationKeys.Proofs.Script.Conversion

/-!
# When a component cannot be parsed

With grammars that can be used, a component fails for three causes: a script block with syntax
errors, an escape sequence that names far too large a number, and a character reference of too many
digits. Templates fail for the last two only: an expression with syntax errors is left without a
node.
-/

namespace TranslationKeys

/-- A grammar can be used: it gives every text a tree whose nodes lie between its characters. -/
def Grammars.Reads (g : Grammars) (grammar : String) : Prop :=
  ∀ text, ∃ tree, g.parse grammar text = .ok tree ∧ tree.root.IsAligned text.toList

namespace Component

/-- A mustache as it is written, with its content between doubled braces. -/
def mustacheText (content : List Char) : List Char :=
  ['\x7b', '\x7b'] ++ content ++ ['\x7d', '\x7d']

/-- A text of a component that is read as an expression: what stands in a mustache, or the end of
an attribute's value. -/
inductive IsExcerpt (cs : List Char) (root : TreeNode) : List Char → Prop where
  | mustache {content : List Char} (hcontent : mustacheText content <:+: cs) :
      IsExcerpt cs root content
  | value {n : TreeNode} {value rest : List Char} (hn : n ∈ root.nodes)
      (hkind : n.kind ∈ valueKinds) (hvalue : contentText (Utf8.encode cs) n = .ok value)
      (hrest : rest <:+ value) : IsExcerpt cs root rest

/-- A number in a component is out of range: that of an escape sequence in a script or in an
expression, or that of a character reference. -/
inductive OutOfRange (g : Grammars) (cs : List Char) (root : TreeNode) : Failure → Prop where
  | script {raw : TreeNode} {grammar : String} {part : List Char} {tree : SyntaxTree}
      (hraw : raw ∈ root.nodes) (hkind : raw.kind = "raw_text")
      (hpart : raw.text (Utf8.encode cs) = .ok part)
      (htree : g.parse grammar (String.ofList part) = .ok tree)
      (hoverflow : Script.HoldsOverflow (Utf8.encodeString (String.ofList part)) tree.root) :
      OutOfRange g cs root .codePointOverflow
  | expression {excerpt : List Char} {grammar text : String} {tree : SyntaxTree}
      (hexcerpt : IsExcerpt cs root excerpt)
      (htext : text = String.ofList excerpt ∨ text = Script.parenthesised (String.ofList excerpt))
      (htree : g.parse grammar text = .ok tree)
      (hoverflow : Script.HoldsOverflow (Utf8.encodeString text) tree.root) :
      OutOfRange g cs root .codePointOverflow
  | reference (hlong : Html.HoldsLongReference cs) : OutOfRange g cs root .numeralTooLong

section Mustaches

variable {cs : List Char}

/-- A doubled byte is what lies between its first position and the one behind it. -/
theorem slice_of_pairAt {source : List UInt8} {b : UInt8} {p : Nat} (h : PairAt source b p) :
    Utf8.slice source p (p + 2) = [b, b] := by
  obtain ⟨hp, hfirst⟩ := List.getElem?_eq_some_iff.1 h.1
  obtain ⟨hp', hsecond⟩ := List.getElem?_eq_some_iff.1 h.2
  rw [Utf8.slice, List.drop_take, Nat.add_sub_cancel_left, List.drop_eq_getElem_cons hp,
    List.drop_eq_getElem_cons hp', hfirst, hsecond]
  rfl

/-- What lies between doubled braces is the content of a mustache. -/
theorem exists_mustacheText {opening closing : Nat}
    (hopening : PairAt (Utf8.encode cs) openingByte opening)
    (hclosing : PairAt (Utf8.encode cs) closingByte closing) (hle : opening + 2 ≤ closing) :
    ∃ content, mustacheText content <:+: cs ∧
      decodeBytes (Utf8.slice (Utf8.encode cs) (opening + 2) closing) = .ok content := by
  obtain ⟨hfirst, hinner⟩ := isBoundary_of_pairAt hopening (by decide)
  obtain ⟨hinner', hlast⟩ := isBoundary_of_pairAt hclosing (by decide)
  obtain ⟨whole, hwhole, hslice⟩ := Utf8.exists_slice_eq_encode hfirst hlast
  obtain ⟨content, -, hcontent⟩ := Utf8.exists_slice_eq_encode hinner hinner'
  have hlength := (List.getElem?_eq_some_iff.1 hclosing.2).1
  have hencoded : Utf8.encode whole = Utf8.encode (mustacheText content) := by
    rw [← hslice, Utf8.slice_append (Nat.le_add_right opening 2) (by omega) (by omega),
      Utf8.slice_append hle (Nat.le_add_right closing 2) (by omega), slice_of_pairAt hopening,
      slice_of_pairAt hclosing, hcontent, mustacheText, Utf8.encode_append, Utf8.encode_append,
      List.append_assoc]
    rfl
  obtain rfl := Utf8.encode_injective hencoded
  exact ⟨content, hwhole, by rw [decodeBytes, hcontent, Utf8.decode?_encode]⟩

end Mustaches

/-- What the parts of a component are built from can be read: the tree of the component is aligned
with its text, and the grammar of its expressions can be used. -/
structure IsReadable (ctx : Context) (cs : List Char) (root : TreeNode) : Prop where
  source : ctx.source = Utf8.encode cs
  aligned : root.IsAligned cs
  reads : ctx.grammars.Reads ctx.grammar

section Readable

variable {cs : List Char} {root : TreeNode} {ctx : Context}

/-- What is read as an expression is an excerpt of the component. -/
theorem IsReadable.isExcerpt (hctx : IsReadable ctx cs root) {text : List Char}
    (h : IsCode ctx.source root text) : IsExcerpt cs root text := by
  cases h with
  | mustache helement hmustache hcontent =>
    rw [hctx.source] at hmustache hcontent
    obtain ⟨hopening, hclosing, hle⟩ := isAligned_fragmentsOf hctx.aligned helement _ hmustache
    obtain ⟨content, hexcerpt, hdecoded⟩ := exists_mustacheText hopening hclosing hle
    obtain rfl := Except.ok.inj (hcontent.symm.trans hdecoded)
    exact .mustache hexcerpt
  | value hn hkind hvalue hrest => exact .value hn hkind (hctx.source ▸ hvalue) hrest

/-- A tree that is aligned with its text is decoded unless a reference is too long. -/
theorem decodesUnless_outOfRange {g : Grammars} (haligned : root.IsAligned cs) :
    DecodesUnless (Utf8.encode cs) root (OutOfRange g cs root) where
  decode slice h := by
    obtain ⟨part, -, hpart⟩ := exists_decodeBytes_of_isDecoded haligned h
    exact .of_eq_ok hpart
  unescape slice text h htext := by
    obtain ⟨part, hpart, hdecoded⟩ := exists_decodeBytes_of_isDecoded haligned h
    obtain rfl := Except.ok.inj (htext.symm.trans hdecoded)
    refine (Html.failsOnlyBy_unescape text).imp fun e he => ?_
    obtain ⟨rfl, hlong⟩ := he
    exact .reference (hlong.mono hpart)

/-- Under a grammar that can be used, templates are read unless a number is out of range. -/
theorem IsReadable.readsUnless (hctx : IsReadable ctx cs root) :
    ReadsUnless ctx root (OutOfRange ctx.grammars cs root) where
  toDecodesUnless := hctx.source ▸ decodesUnless_outOfRange hctx.aligned
  expression text h offset := by
    obtain ⟨tree, htree, haligned⟩ := hctx.reads (Script.parenthesised (String.ofList text))
    refine (Script.failsOnlyBy_expression offset htree haligned).imp fun e he => ?_
    obtain ⟨rfl, hoverflow⟩ := he
    exact .expression (hctx.isExcerpt h) (.inr rfl) htree hoverflow
  statements text h offset := by
    obtain ⟨tree, htree, haligned⟩ := hctx.reads (String.ofList text)
    refine (Script.failsOnlyBy_statements offset htree haligned).imp fun e he => ?_
    obtain ⟨rfl, hoverflow⟩ := he
    exact .expression (hctx.isExcerpt h) (.inl rfl) htree hoverflow

end Readable

section Blocks

variable {g : Grammars} {cs : List Char} {root : TreeNode} {ctx : Context}

/-- The script of a block has syntax errors under the grammar of the block: the one that its `lang`
attribute names, or else that of the template's expressions. -/
def HasSyntaxErrors (ctx : Context) (grammar : String) (block : TreeNode) : Prop :=
  block.kind = "script_element" ∧ ∃ raw lang part tree,
    block.firstOfKinds? ["raw_text"] = some raw ∧ langOf ctx.source block = .ok lang ∧
    grammar = (if lang.isEmpty then ctx.grammar else grammarOfLang lang) ∧
    raw.text ctx.source = .ok part ∧
    ctx.grammars.parse grammar (String.ofList part) = .ok tree ∧ tree.hasError = true

/-- Why blocks fail: one of them is a script with syntax errors, or a number is out of range. -/
def BlockCause (ctx : Context) (cs : List Char) (root : TreeNode) (blocks : List TreeNode)
    (e : Failure) : Prop :=
  (∃ grammar, e = .syntaxErrors grammar ∧ ∃ block ∈ blocks, HasSyntaxErrors ctx grammar block) ∨
    OutOfRange ctx.grammars cs root e

/-- A script block fails on syntax errors or on numbers out of range. -/
theorem IsReadable.failsOnlyBy_scriptBlock (hctx : IsReadable ctx cs root)
    (hbundled : ∀ grammar ∈ scriptGrammars, ctx.grammars.Reads grammar) {blocks : List TreeNode}
    {block : TreeNode} (hmem : block ∈ blocks) (hkind : block.kind = "script_element")
    (hblock : block ∈ root.nodes) :
    FailsOnlyBy (BlockCause ctx cs root blocks) (scriptBlock ctx block) := by
  refine Component.failsOnlyBy_scriptBlock
    (hctx.readsUnless.toDecodesUnless.imp fun _ he => .inr he) hblock ?_
  intro raw lang part hraw hlang htext
  have hgrammar : ctx.grammars.Reads
      (if lang.isEmpty then ctx.grammar else grammarOfLang lang) := by
    split
    · exact hctx.reads
    · exact hbundled _ (grammarOfLang_mem lang)
  obtain ⟨tree, htree, htreeAligned⟩ := hgrammar (String.ofList part)
  refine (Script.failsOnlyBy_parse _ htree htreeAligned).imp fun e he => ?_
  rcases he with ⟨rfl, herror⟩ | ⟨rfl, hoverflow⟩
  · exact .inl ⟨_, rfl, block, hmem, hkind, raw, lang, part, tree, hraw, hlang, rfl, htext, htree,
      herror⟩
  · have hrawKind : raw.kind = "raw_text" :=
      List.mem_singleton.1 (TreeNode.mem_of_firstOfKinds? hraw).2
    exact .inr (.script (TreeNode.mem_nodes_firstOfKinds? hblock hraw) hrawKind
      (hctx.source ▸ htext) htree hoverflow)

/-- Blocks fail on scripts with syntax errors among them or on numbers out of range. -/
theorem IsReadable.failsOnlyBy_blockNodes (hctx : IsReadable ctx cs root)
    (hbundled : ∀ grammar ∈ scriptGrammars, ctx.grammars.Reads grammar)
    {blocks : List TreeNode} (hblocks : ∀ block ∈ blocks, block ∈ root.nodes)
    (template : Option Node) :
    FailsOnlyBy (BlockCause ctx cs root blocks) (blockNodes ctx template blocks) :=
  Component.failsOnlyBy_blockNodes (hctx.readsUnless.imp fun _ he => .inr he) hblocks
    (fun block hmem hkind =>
      hctx.failsOnlyBy_scriptBlock hbundled hmem hkind (hblocks block hmem)) template

/-- A script with syntax errors is no block of a component that is parsed. -/
theorem scriptBlock_ne_ok {grammar : String} {block : TreeNode}
    (h : HasSyntaxErrors ctx grammar block) (statements : List Node) :
    scriptBlock ctx block ≠ .ok statements := by
  obtain ⟨-, raw, lang, part, tree, hraw, hlang, rfl, htext, htree, herror⟩ := h
  intro hok
  simp only [scriptBlock, hraw] at hok
  obtain ⟨found, hfound, hok⟩ := bind_eq_ok_iff.1 hok
  obtain rfl := Except.ok.inj (hfound.symm.trans hlang)
  obtain ⟨text, htext', hok⟩ := bind_eq_ok_iff.1 hok
  obtain rfl := Except.ok.inj (htext'.symm.trans htext)
  obtain ⟨program, hprogram, -⟩ := bind_eq_ok_iff.1 hok
  rw [Script.parse_of_tree _ htree, if_pos herror] at hprogram
  exact nomatch hprogram

/-- Blocks of which one is a script with syntax errors fail. -/
theorem blockNodes_ne_ok {grammar : String} {blocks : List TreeNode} {block : TreeNode}
    (hblock : block ∈ blocks) (h : HasSyntaxErrors ctx grammar block) (template : Option Node)
    (parts : List Node × Option Node) : blockNodes ctx template blocks ≠ .ok parts := by
  induction blocks generalizing template parts with
  | nil => exact absurd hblock List.not_mem_nil
  | cons first blocks ih =>
    intro hok
    by_cases hkind : first.kind = "script_element"
    · rw [blockNodes, if_pos (by simpa using hkind)] at hok
      obtain ⟨statements, hscript, hok⟩ := bind_eq_ok_iff.1 hok
      obtain ⟨rest, hrest, -⟩ := bind_eq_ok_iff.1 hok
      rcases List.mem_cons.1 hblock with rfl | hblock
      · exact scriptBlock_ne_ok h statements hscript
      · exact ih hblock template rest hrest
    · have hblock : block ∈ blocks :=
        (List.mem_cons.1 hblock).resolve_left fun heq => hkind (heq ▸ h.1)
      cases template with
      | some node =>
        rw [blockNodes, if_neg (by simpa using hkind)] at hok
        exact ih hblock (some node) parts hok
      | none =>
        rw [blockNodes_none_of_ne hkind] at hok
        obtain ⟨isOne, -, hok⟩ := bind_eq_ok_iff.1 hok
        cases isOne with
        | false => exact ih hblock none parts hok
        | true =>
          obtain ⟨node, -, hok⟩ := bind_eq_ok_iff.1 hok
          exact ih hblock (some node) parts hok

end Blocks

/-- Some top-level script of a component has syntax errors under its grammar. -/
def HasErroneousScript (g : Grammars) (text : String) (scriptGrammar : Option String)
    (grammar : String) : Prop :=
  ∃ tree expressions, g.parse Grammar.html text = .ok tree ∧
    expressionGrammar (Utf8.encodeString text) tree.root.namedChildren scriptGrammar =
      .ok expressions ∧
    ∃ block ∈ tree.root.namedChildren,
      HasSyntaxErrors ⟨g, Utf8.encodeString text, expressions⟩ grammar block

/-- Some number in a component is out of range. -/
def HasNumberOutOfRange (g : Grammars) (text : String) (e : Failure) : Prop :=
  ∃ tree, g.parse Grammar.html text = .ok tree ∧ OutOfRange g text.toList tree.root e

/-- A template never makes a component fail, numbers out of range apart. With grammars that can be
used, a component that fails has a top-level script with syntax errors, which is then the failure
reported, or it holds an escape or a character reference whose number is out of range; and a
component with such a script does fail. -/
theorem parse_failsOnlyBy_scripts {g : Grammars} (text : String) (scriptGrammar : Option String)
    (hhtml : g.Reads Grammar.html)
    (hbundled : ∀ grammar ∈ scriptGrammars, g.Reads grammar)
    (hchosen : ∀ grammar, scriptGrammar = some grammar → grammar ≠ "" → g.Reads grammar) :
    (∀ e, parse g text scriptGrammar = .error e →
      (∃ grammar, e = .syntaxErrors grammar ∧ HasErroneousScript g text scriptGrammar grammar) ∨
        HasNumberOutOfRange g text e) ∧
    ∀ grammar, HasErroneousScript g text scriptGrammar grammar →
      ∃ e, parse g text scriptGrammar = .error e := by
  constructor
  · obtain ⟨tree, htree, haligned⟩ := hhtml text
    have hblocks : ∀ block ∈ tree.root.namedChildren, block ∈ tree.root.nodes :=
      fun block hblock => TreeNode.mem_nodes_child tree.root.mem_nodes_self
        (TreeNode.mem_children_of_mem_namedChildren hblock)
    have hfails := failsOnlyBy_expressionGrammar (decodesUnless_outOfRange (g := g) haligned)
      hblocks scriptGrammar
    rw [parse_eq]
    refine FailsOnlyBy.bind_of_eq_ok htree (.bind (hfails.imp fun e he => .inr ⟨tree, htree, he⟩)
      fun expressions hexpressions => .bind ?_ fun _ _ => .pure _)
    have hreads : g.Reads expressions := by
      rcases expressionGrammar_mem hexpressions with hmem | ⟨hasked, hne⟩
      · exact hbundled expressions hmem
      · exact hchosen expressions hasked hne
    have hctx : IsReadable ⟨g, Utf8.encodeString text, expressions⟩ text.toList tree.root :=
      ⟨rfl, haligned, hreads⟩
    refine (hctx.failsOnlyBy_blockNodes hbundled hblocks none).imp fun e he => ?_
    rcases he with ⟨grammar, heq, herrors⟩ | hrange
    · exact .inl ⟨grammar, heq, tree, expressions, htree, hexpressions, herrors⟩
    · exact .inr ⟨tree, htree, hrange⟩
  · intro grammar h
    obtain ⟨tree, expressions, htree, hexpressions, block, hblock, herrors⟩ := h
    cases hparse : parse g text scriptGrammar with
    | error e => exact ⟨e, rfl⟩
    | ok program =>
      rw [parse_eq] at hparse
      obtain ⟨tree', htree', hparse⟩ := bind_eq_ok_iff.1 hparse
      obtain rfl : tree' = tree := Except.ok.inj (htree'.symm.trans htree)
      obtain ⟨found, hfound, hparse⟩ := bind_eq_ok_iff.1 hparse
      obtain rfl : found = expressions := Except.ok.inj (hfound.symm.trans hexpressions)
      obtain ⟨parts, hparts, -⟩ := bind_eq_ok_iff.1 hparse
      exact absurd hparts (blockNodes_ne_ok hblock herrors none parts)

/-- A component whose template and script each hold a parenthesis that is not closed. -/
def sampleBroken : String :=
  "<template>\x7b\x7b(\x7d\x7d</template><script>(</script>"

/-- The script block of the sample. -/
def sampleBrokenScript : TreeNode :=
  .mk "script_element" 26 44 true
    [.mk "start_tag" 26 34 true [.mk "tag_name" 27 33 true [] []] [],
      .mk "raw_text" 34 35 true [] [],
      .mk "end_tag" 35 44 true [.mk "tag_name" 37 43 true [] []] []] []

/-- The HTML tree of the sample. -/
def sampleBrokenTree : SyntaxTree where
  root :=
    .mk "document" 0 44 true
      [.mk "element" 0 26 true
        [.mk "start_tag" 0 10 true [.mk "tag_name" 1 9 true [] []] [], .mk "text" 10 15 true [] [],
          .mk "end_tag" 15 26 true [.mk "tag_name" 17 25 true [] []] []] [],
        sampleBrokenScript] []
  hasError := false

/-- A tree of nothing but errors. -/
def errorTree : SyntaxTree := ⟨.mk "program" 0 0 true [] [], true⟩

/-- Grammars that know the HTML tree of the sample and find errors everywhere else. -/
def sampleBrokenGrammars : Grammars where
  installed _ := true
  tree? grammar text :=
    some (if grammar = Grammar.html ∧ text = sampleBroken then sampleBrokenTree else errorTree)

/-- The grammars of the sample can be used. -/
theorem reads_sampleBrokenGrammars {grammar : String}
    (h : sampleBrokenGrammars.isAvailable grammar = true) :
    sampleBrokenGrammars.Reads grammar := by
  intro text
  have hparse : sampleBrokenGrammars.parse grammar text = .ok
      (if grammar = Grammar.html ∧ text = sampleBroken then sampleBrokenTree else errorTree) := by
    rw [Grammars.parse, Grammars.require, if_pos h]
    rfl
  refine ⟨_, hparse, ?_⟩
  split
  · rename_i hsample
    rw [hsample.2]
    decide +kernel
  · intro n hn
    obtain rfl : n = errorTree.root := List.mem_singleton.1 hn
    exact ⟨⟨[], text.toList, rfl, rfl⟩, ⟨[], text.toList, rfl, rfl⟩⟩

/-- The sample fails, and not because of its template. -/
theorem parse_failsOnlyBy_scripts_sampleBroken :
    sampleBrokenGrammars.Reads Grammar.html ∧
      (∀ grammar ∈ scriptGrammars, sampleBrokenGrammars.Reads grammar) ∧
      HasErroneousScript sampleBrokenGrammars sampleBroken none Grammar.javascript ∧
      (∀ e, parse sampleBrokenGrammars sampleBroken none = .error e →
        (∃ grammar, e = .syntaxErrors grammar ∧
          HasErroneousScript sampleBrokenGrammars sampleBroken none grammar) ∨
            HasNumberOutOfRange sampleBrokenGrammars sampleBroken e) ∧
      ∃ e, parse sampleBrokenGrammars sampleBroken none = .error e := by
  have hhtml : sampleBrokenGrammars.Reads Grammar.html := reads_sampleBrokenGrammars (by decide)
  have hbundled : ∀ grammar ∈ scriptGrammars, sampleBrokenGrammars.Reads grammar :=
    fun grammar hgrammar => reads_sampleBrokenGrammars (by revert grammar; decide)
  have hscript : HasErroneousScript sampleBrokenGrammars sampleBroken none Grammar.javascript :=
    ⟨sampleBrokenTree, Grammar.javascript, rfl, rfl, sampleBrokenScript, by
      exact .tail _ (.head _), rfl, .mk "raw_text" 34 35 true [] [], [], ['('], errorTree, rfl, rfl,
      rfl, rfl, rfl, rfl⟩
  obtain ⟨hfails, herror⟩ := parse_failsOnlyBy_scripts sampleBroken none hhtml hbundled nofun
  exact ⟨hhtml, hbundled, hscript, hfails, herror _ hscript⟩

end Component

end TranslationKeys
