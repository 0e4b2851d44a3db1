import TranslationKeys.Proofs.Causes
import TranslationKeys.Proofs.Component.Elements
import TranslationKeys.Proofs.Component.Fragments

/-!
# What is decoded of a component

A component is read from slices of its bytes: the names and values in its tags, raw text, and what
its templates are cut into at doubled braces. Whatever its tree is, these are all the slices that
are decoded, so that parsing fails to decode something only if one of them is not decodable. If the
tree is aligned with the text, every one of them is the encoding of a part of the text, as no byte
of a longer character is a brace.
-/

namespace TranslationKeys.Component

/-- The kinds of nodes whose bytes are decoded. -/
def textKinds : List String := ["tag_name", "attribute_name", "attribute_value", "raw_text"]

/-- The slices of a source that are decoded when a component is read from its tree. Texts that turn
out to be blank, which are left out without being decoded, are counted in. -/
inductive IsDecoded (source : List UInt8) (root : TreeNode) : List UInt8 → Prop where
  /-- A name or a value in a tag, or raw text. -/
  | node {n : TreeNode} (hn : n ∈ root.nodes) (hkind : n.kind ∈ textKinds) :
      IsDecoded source root (n.bytes source)
  /-- A text between mustaches and elements. -/
  | text {element : TreeNode} {start stop : Nat} (helement : element ∈ root.nodes)
      (htext : .text start stop ∈ fragmentsOf source element) :
      IsDecoded source root (Utf8.slice source start stop)
  /-- The content of a mustache. -/
  | mustache {element : TreeNode} {opening closing : Nat} (helement : element ∈ root.nodes)
      (hmustache : .mustache opening closing ∈ fragmentsOf source element) :
      IsDecoded source root (Utf8.slice source (opening + 2) closing)

/-- The texts that are read as an expression: what stands in a mustache, or the end of an
attribute's value. -/
inductive IsCode (source : List UInt8) (root : TreeNode) : List Char → Prop where
  /-- The content of a mustache. -/
  | mustache {element : TreeNode} {opening closing : Nat} {content : List Char}
      (helement : element ∈ root.nodes)
      (hmustache : .mustache opening closing ∈ fragmentsOf source element)
      (hcontent : decodeBytes (Utf8.slice source (opening + 2) closing) = .ok content) :
      IsCode source root content
  /-- The end of an attribute's value. -/
  | value {n : TreeNode} {value rest : List Char} (hn : n ∈ root.nodes)
      (hkind : n.kind ∈ valueKinds) (hvalue : contentText source n = .ok value)
      (hrest : rest <:+ value) : IsCode source root rest

/-- What is decoded of a component fails only for some causes. -/
structure DecodesUnless (source : List UInt8) (root : TreeNode) (cause : Failure → Prop) :
    Prop where
  /-- Slices are decoded. -/
  decode : ∀ slice, IsDecoded source root slice → FailsOnlyBy cause (decodeBytes slice)
  /-- Character references in what was decoded are replaced. -/
  unescape : ∀ slice text, IsDecoded source root slice → decodeBytes slice = .ok text →
    FailsOnlyBy cause (Html.unescape text)

/-- What is read of a component fails only for some causes. -/
structure ReadsUnless (ctx : Context) (root : TreeNode) (cause : Failure → Prop) : Prop extends
    DecodesUnless ctx.source root cause where
  /-- Expressions are read. -/
  expression : ∀ text, IsCode ctx.source root text → ∀ offset,
    FailsOnlyBy cause (Script.expression ctx.grammars ctx.grammar (String.ofList text) offset)
  /-- Statements are read. -/
  statements : ∀ text, IsCode ctx.source root text → ∀ offset,
    FailsOnlyBy cause (Script.statements ctx.grammars ctx.grammar (String.ofList text) offset)

/-- More causes can be allowed for what is decoded. -/
theorem DecodesUnless.imp {source : List UInt8} {root : TreeNode} {cause cause' : Failure → Prop}
    (h : DecodesUnless source root cause) (himp : ∀ e, cause e → cause' e) :
    DecodesUnless source root cause' where
  decode slice hslice := (h.decode slice hslice).imp himp
  unescape slice text hslice htext := (h.unescape slice text hslice htext).imp himp

/-- More causes can be allowed for what is read. -/
theorem ReadsUnless.imp {ctx : Context} {root : TreeNode} {cause cause' : Failure → Prop}
    (h : ReadsUnless ctx root cause) (himp : ∀ e, cause e → cause' e) :
    ReadsUnless ctx root cause' where
  toDecodesUnless := h.toDecodesUnless.imp himp
  expression text htext offset := (h.expression text htext offset).imp himp
  statements text htext offset := (h.statements text htext offset).imp himp

section Tags

variable {source : List UInt8} {root : TreeNode} {ctx : Context} {cause : Failure → Prop}

/-- The text of a node of a kind that is decoded is read. -/
theorem failsOnlyBy_text (h : DecodesUnless source root cause) {n : TreeNode} (hn : n ∈ root.nodes)
    (hkind : n.kind ∈ textKinds) : FailsOnlyBy cause (n.text source) :=
  h.decode _ (.node hn hkind)

/-- The text of the first child of a kind that is decoded is read. -/
theorem failsOnlyBy_text_firstOfKinds? (h : DecodesUnless source root cause) {n child : TreeNode}
    {kind : String} (hn : n ∈ root.nodes) (hchild : n.firstOfKinds? [kind] = some child)
    (hkind : kind ∈ textKinds) : FailsOnlyBy cause (child.text source) := by
  obtain ⟨-, heq⟩ := TreeNode.mem_of_firstOfKinds? hchild
  exact failsOnlyBy_text h (TreeNode.mem_nodes_firstOfKinds? hn hchild)
    (List.mem_singleton.1 heq ▸ hkind)

/-- The value of an attribute is read. -/
theorem failsOnlyBy_contentText (h : DecodesUnless source root cause) {value : TreeNode}
    (hvalue : value ∈ root.nodes) (hkind : value.kind ∈ valueKinds) :
    FailsOnlyBy cause (contentText source value) := by
  have hread {n : TreeNode} (hn : n ∈ root.nodes) (hkind : n.kind = "attribute_value") :
      FailsOnlyBy cause (n.text source >>= Html.unescape) := by
    have hdecoded : IsDecoded source root (n.bytes source) :=
      .node hn (by simp [hkind, textKinds])
    exact .bind (h.decode _ hdecoded) fun text htext => h.unescape _ text hdecoded htext
  unfold contentText
  split
  · cases hinner : value.firstOfKinds? ["attribute_value"] with
    | none => exact .pure []
    | some inner =>
      exact hread (TreeNode.mem_nodes_firstOfKinds? hvalue hinner)
        (List.mem_singleton.1 (TreeNode.mem_of_firstOfKinds? hinner).2)
  · rename_i hplain
    refine hread hvalue (by simp_all [valueKinds, isQuoted])

/-- What stands after a divider is an end of the text. -/
theorem afterDivider?_suffix {text rest : List Char} (h : afterDivider? text = some rest) :
    rest <:+ text := by
  unfold afterDivider? at h
  split at h
  · obtain rfl := Option.some.inj h
    exact (List.suffix_cons _ _).trans (List.suffix_cons _ _)
  · obtain rfl := Option.some.inj h
    exact (List.suffix_cons _ _).trans (List.suffix_cons _ _)
  · exact nomatch h

/-- What a `for` directive runs over is the end of its value. -/
theorem iterable?_suffix {text rest : List Char} (h : iterable? text = some rest) :
    rest <:+ text := by
  fun_induction iterable? text with
  | case1 => exact nomatch h
  | case2 c cs _ d tail hdivider _ =>
    obtain rfl := Option.some.inj h
    have htail : d :: tail <:+ cs := (afterDivider?_suffix hdivider).trans (List.dropWhile_suffix _)
    exact ((List.dropWhile_suffix _).trans (List.suffix_cons d tail)).trans
      (htail.trans (List.suffix_cons c cs))
  | case3 c cs _ _ _ _ _ ih | case4 c cs _ _ ih | case5 c cs _ ih =>
    exact (ih h).trans (List.suffix_cons c cs)

/-- The value of a directive is read. -/
theorem failsOnlyBy_directiveValue (h : ReadsUnless ctx root cause) (name : List Char)
    {text : List Char} (hcode : ∀ rest, rest <:+ text → IsCode ctx.source root rest)
    (offset : Int) : FailsOnlyBy cause (directiveValue ctx name text offset) := by
  have hwhole := hcode text List.suffix_rfl
  simp only [directiveValue]
  split
  · split
    · exact .ok none
    · rename_i rest hrest
      exact .bind (h.expression rest (hcode rest (iterable?_suffix hrest)) _) fun _ _ => .pure _
  · exact .ok none
  · refine .bind (h.expression text hwhole _) fun node _ => ?_
    cases node with
    | some node => exact .pure _
    | none => exact .bind (h.statements text hwhole _) fun _ _ => .pure _
  · exact h.expression text hwhole _

/-- An attribute is read. -/
theorem failsOnlyBy_attributeNode (h : ReadsUnless ctx root cause) {n : TreeNode}
    (hn : n ∈ root.nodes) : FailsOnlyBy cause (attributeNode ctx n) := by
  have hname : FailsOnlyBy cause (attributeName ctx.source n) := by
    unfold attributeName
    split
    · rename_i hname
      exact failsOnlyBy_text_firstOfKinds? h.toDecodesUnless hn hname (by decide)
    · exact .ok []
  have hvalue {v : TreeNode} (hv : n.firstOfKinds? valueKinds = some v) :
      FailsOnlyBy cause (contentText ctx.source v) :=
    failsOnlyBy_contentText h.toDecodesUnless (TreeNode.mem_nodes_firstOfKinds? hn hv)
      (TreeNode.mem_of_firstOfKinds? hv).2
  refine .bind hname fun name _ => ?_
  split
  · refine .bind (.mapM_option fun v hv => ?_) fun _ _ => .pure _
    exact .bind (hvalue hv) fun _ _ => .pure _
  · refine .bind (.mapM_option fun v hv => ?_) fun _ _ => .pure _
    refine .bind (hvalue hv) fun text htext => ?_
    have hcode (rest : List Char) (hrest : rest <:+ text) : IsCode ctx.source root rest :=
      .value (TreeNode.mem_nodes_firstOfKinds? hn hv) (TreeNode.mem_of_firstOfKinds? hv).2 htext
        hrest
    exact .bind (failsOnlyBy_directiveValue h _ hcode _) fun _ _ => .pure _

/-- An opening tag is read. -/
theorem failsOnlyBy_tagNode (h : ReadsUnless ctx root cause) {tag : Option TreeNode}
    (htag : ∀ n, tag = some n → n ∈ root.nodes) : FailsOnlyBy cause (tagNode ctx tag) := by
  cases tag with
  | none => exact .ok _
  | some n =>
    refine .bind (.mapM fun child hchild => ?_) fun _ _ => .pure _
    have hchild := TreeNode.mem_children_of_mem_namedChildren (List.mem_of_mem_filter hchild)
    exact failsOnlyBy_attributeNode h (TreeNode.mem_nodes_child (htag n rfl) hchild)

/-- The name of an element is read. -/
theorem failsOnlyBy_elementName (h : DecodesUnless source root cause) {n : TreeNode}
    (hn : n ∈ root.nodes) : FailsOnlyBy cause (elementName source n) := by
  unfold elementName
  split
  · rename_i name hname
    obtain ⟨tag, htag, hname⟩ := Option.bind_eq_some_iff.1 hname
    exact failsOnlyBy_text_firstOfKinds? h (TreeNode.mem_nodes_firstOfKinds? hn htag) hname
      (by decide)
  · exact .ok []

end Tags

section Elements

variable {ctx : Context} {root : TreeNode} {cause : Failure → Prop}

/-- A text between mustaches and elements is read. -/
theorem failsOnlyBy_textBetween (h : DecodesUnless ctx.source root cause) {element : TreeNode}
    {start stop : Nat} (helement : element ∈ root.nodes)
    (htext : .text start stop ∈ fragmentsOf ctx.source element) :
    FailsOnlyBy cause (textBetween ctx start stop) := by
  have hdecoded : IsDecoded ctx.source root (Utf8.slice ctx.source start stop) :=
    .text helement htext
  simp only [textBetween]
  split
  · exact .pure []
  · exact .bind (h.decode _ hdecoded) fun text htext =>
      .bind (h.unescape _ text hdecoded htext) fun _ _ => .pure _

/-- A mustache is read. -/
theorem failsOnlyBy_mustache (h : ReadsUnless ctx root cause) {element : TreeNode}
    {opening closing : Nat} (helement : element ∈ root.nodes)
    (hmustache : .mustache opening closing ∈ fragmentsOf ctx.source element) :
    FailsOnlyBy cause (mustache ctx opening closing) := by
  refine .bind (h.decode _ (.mustache helement hmustache)) fun content hcontent => ?_
  exact .bind (h.expression content (.mustache helement hmustache hcontent) _) fun _ _ => .pure _

/-- The content of an element is read if its child elements are. -/
theorem failsOnlyBy_contentNodes (h : ReadsUnless ctx root cause) {element : TreeNode}
    (helement : element ∈ root.nodes)
    (hchildren : ∀ child ∈ element.children, FailsOnlyBy cause (elementNode ctx child)) :
    FailsOnlyBy cause
      (contentNodes ctx (innerStop element) (innerStart element) element.children) := by
  rw [contentNodes_eq]
  refine (FailsOnlyBy.mapM fun fragment hfragment => ?_).map _
  cases fragment with
  | text start stop => exact failsOnlyBy_textBetween h.toDecodesUnless helement hfragment
  | mustache opening closing =>
    exact .bind (failsOnlyBy_mustache h helement hfragment) fun _ _ => .pure _
  | element child =>
    exact .bind (hchildren child (mem_children_of_mem_contentFragments hfragment))
      fun _ _ => .pure _

/-- An element is read. -/
theorem failsOnlyBy_elementNode (h : ReadsUnless ctx root cause) (n : TreeNode)
    (hn : n ∈ root.nodes) : FailsOnlyBy cause (elementNode ctx n) := by
  induction n using TreeNode.induction with
  | step n ih =>
    have hchild {child : TreeNode} (hchild : child ∈ n.children) : child ∈ root.nodes :=
      TreeNode.mem_nodes_child hn hchild
    have hcontent := failsOnlyBy_contentNodes h hn fun child hmem => ih child hmem (hchild hmem)
    cases n with
    | mk kind start stop isNamed children fields =>
      rw [elementNode]
      refine .bind (failsOnlyBy_elementName h.toDecodesUnless hn) fun _ _ =>
        .bind (failsOnlyBy_tagNode h fun tag htag => TreeNode.mem_nodes_firstOfKinds? hn htag)
          fun _ _ => ?_
      simp only
      split
      · refine .bind (.mapM fun child hmem => .bind ?_ fun _ _ => .pure _) fun _ _ => .pure _
        obtain ⟨hmem, hkind⟩ := List.mem_filter.1 hmem
        exact failsOnlyBy_text h.toDecodesUnless
          (hchild (TreeNode.mem_children_of_mem_namedChildren hmem))
          (by simp [eq_of_beq hkind, textKinds])
      · exact .bind hcontent fun _ _ => .pure _

end Elements

section Blocks

variable {source : List UInt8} {root : TreeNode} {ctx : Context} {cause : Failure → Prop}

/-- The `lang` attribute of a block is read. -/
theorem failsOnlyBy_langOf (h : DecodesUnless source root cause) {block : TreeNode}
    (hblock : block ∈ root.nodes) : FailsOnlyBy cause (langOf source block) := by
  unfold langOf
  cases htag : openingTag? block with
  | none => exact .ok []
  | some tag =>
    have htag := TreeNode.mem_nodes_firstOfKinds? hblock htag
    refine .bind (.bind (.mapM fun n hn => ?_) fun _ _ => .pure _) fun _ _ => .pure _
    have hn := TreeNode.mem_nodes_child htag
      (TreeNode.mem_children_of_mem_namedChildren (List.mem_of_mem_filter hn))
    cases hname : n.firstOfKinds? ["attribute_name"] with
    | none => exact .pure none
    | some name =>
      have hname : FailsOnlyBy cause (name.text source) :=
        failsOnlyBy_text_firstOfKinds? h hn hname (by decide)
      cases hvalue : n.firstOfKinds? valueKinds with
      | none => exact .bind (.pure []) fun _ _ => .bind hname fun _ _ => .pure _
      | some value =>
        have hread := failsOnlyBy_contentText h (TreeNode.mem_nodes_firstOfKinds? hn hvalue)
          (TreeNode.mem_of_firstOfKinds? hvalue).2
        exact .bind hread fun _ _ => .bind hname fun _ _ => .pure _

/-- The grammar that the script blocks name is read. -/
theorem failsOnlyBy_grammarOfBlocks (h : DecodesUnless source root cause)
    {blocks : List TreeNode} (hblocks : ∀ block ∈ blocks, block ∈ root.nodes) :
    FailsOnlyBy cause (grammarOfBlocks source blocks) := by
  induction blocks with
  | nil => exact .ok _
  | cons block blocks ih =>
    obtain ⟨hblock, hblocks⟩ := List.forall_mem_cons.1 hblocks
    rw [grammarOfBlocks]
    split
    · refine .bind (failsOnlyBy_langOf h hblock) fun lang _ => ?_
      split
      · exact ih hblocks
      · exact .pure _
    · exact ih hblocks

/-- The grammar of a template's expressions is read. -/
theorem failsOnlyBy_expressionGrammar (h : DecodesUnless source root cause)
    {blocks : List TreeNode} (hblocks : ∀ block ∈ blocks, block ∈ root.nodes)
    (scriptGrammar : Option String) :
    FailsOnlyBy cause (expressionGrammar source blocks scriptGrammar) := by
  unfold expressionGrammar
  split
  · exact .pure _
  · exact failsOnlyBy_grammarOfBlocks h hblocks

/-- The grammars that a script block can be parsed under, unless another one is asked for. -/
def scriptGrammars : List String := [Grammar.javascript, Grammar.typescript, Grammar.tsx]

/-- A `lang` attribute names one of the grammars of scripts. -/
theorem grammarOfLang_mem (lang : List Char) : grammarOfLang lang ∈ scriptGrammars := by
  unfold grammarOfLang
  split <;> simp [scriptGrammars]

/-- The grammar that the script blocks name is one of the grammars of scripts. -/
theorem grammarOfBlocks_mem {blocks : List TreeNode} {grammar : String}
    (h : grammarOfBlocks source blocks = .ok grammar) : grammar ∈ scriptGrammars := by
  induction blocks with
  | nil =>
    obtain rfl : Grammar.javascript = grammar := Except.ok.inj h
    exact List.mem_cons_self
  | cons block blocks ih =>
    rw [grammarOfBlocks] at h
    split at h
    · obtain ⟨lang, -, h⟩ := bind_eq_ok_iff.1 h
      split at h
      · exact ih h
      · obtain rfl : grammarOfLang lang = grammar := Except.ok.inj h
        exact grammarOfLang_mem lang
    · exact ih h

/-- The grammar of a template's expressions is one of those of scripts, or the one asked for. -/
theorem expressionGrammar_mem {blocks : List TreeNode} {scriptGrammar : Option String}
    {grammar : String} (h : expressionGrammar source blocks scriptGrammar = .ok grammar) :
    grammar ∈ scriptGrammars ∨ scriptGrammar = some grammar ∧ grammar ≠ "" := by
  unfold expressionGrammar at h
  split at h
  · rename_i given hgiven
    obtain ⟨hgiven, hne⟩ := Option.filter_eq_some_iff.1 hgiven
    obtain rfl : given = grammar := Except.ok.inj h
    exact .inr ⟨hgiven, by simpa using hne⟩
  · exact .inl (grammarOfBlocks_mem h)

/-- A script block is read if its script is. -/
theorem failsOnlyBy_scriptBlock (h : DecodesUnless ctx.source root cause) {block : TreeNode}
    (hblock : block ∈ root.nodes)
    (hscript : ∀ raw lang text, block.firstOfKinds? ["raw_text"] = some raw →
      langOf ctx.source block = .ok lang → raw.text ctx.source = .ok text →
        FailsOnlyBy cause (Script.parse ctx.grammars
          (if lang.isEmpty then ctx.grammar else grammarOfLang lang) (String.ofList text)
          raw.start)) :
    FailsOnlyBy cause (scriptBlock ctx block) := by
  unfold scriptBlock
  cases hraw : block.firstOfKinds? ["raw_text"] with
  | none => exact .ok []
  | some raw =>
    refine .bind (failsOnlyBy_langOf h hblock) fun lang hlang => ?_
    refine .bind (failsOnlyBy_text_firstOfKinds? h hblock hraw (by decide)) fun text htext => ?_
    exact .bind (hscript raw lang text hraw hlang htext) fun _ _ => .pure _

/-- Whether a block is a template is read. -/
theorem failsOnlyBy_isTemplate (h : DecodesUnless source root cause) {block : TreeNode}
    (hblock : block ∈ root.nodes) : FailsOnlyBy cause (isTemplate source block) := by
  unfold isTemplate
  split
  · exact .bind (failsOnlyBy_elementName h hblock) fun _ _ => .pure _
  · exact .pure false

/-- Blocks are read if the script blocks among them are. -/
theorem failsOnlyBy_blockNodes (h : ReadsUnless ctx root cause) {blocks : List TreeNode}
    (hblocks : ∀ block ∈ blocks, block ∈ root.nodes)
    (hscripts : ∀ block ∈ blocks, block.kind = "script_element" →
      FailsOnlyBy cause (scriptBlock ctx block)) (template : Option Node) :
    FailsOnlyBy cause (blockNodes ctx template blocks) := by
  induction blocks generalizing template with
  | nil => exact .ok _
  | cons block blocks ih =>
    obtain ⟨hblock, hblocks⟩ := List.forall_mem_cons.1 hblocks
    obtain ⟨hscript, hscripts⟩ := List.forall_mem_cons.1 hscripts
    have hrest (template : Option Node) : FailsOnlyBy cause (blockNodes ctx template blocks) :=
      ih hblocks hscripts template
    by_cases hkind : block.kind = "script_element"
    · rw [blockNodes, if_pos (by simpa using hkind)]
      exact .bind (hscript hkind) fun _ _ => .bind (hrest template) fun _ _ => .pure _
    · cases template with
      | none =>
        rw [blockNodes_none_of_ne hkind]
        refine .bind (failsOnlyBy_isTemplate h.toDecodesUnless hblock) fun isOne _ => ?_
        cases isOne with
        | false => exact hrest none
        | true =>
          exact .bind (failsOnlyBy_elementNode h block hblock) fun node _ => hrest (some node)
      | some node =>
        rw [blockNodes, if_neg (by simpa using hkind)]
        exact hrest (some node)

end Blocks

section Aligned

variable {cs : List Char} {root : TreeNode}

/-- In a tree that is aligned with a text, what is decoded is the encoding of a part of the text. -/
theorem exists_encode_of_isDecoded (haligned : root.IsAligned cs) {slice : List UInt8}
    (h : IsDecoded (Utf8.encode cs) root slice) :
    ∃ part, part <:+: cs ∧ slice = Utf8.encode part := by
  cases h with
  | node hn _ => exact Utf8.exists_slice_eq_encode (haligned _ hn).1 (haligned _ hn).2
  | text helement htext =>
    obtain ⟨hstart, hstop⟩ := isAligned_fragmentsOf haligned helement _ htext
    exact Utf8.exists_slice_eq_encode hstart hstop
  | mustache helement hmustache =>
    obtain ⟨hopening, hclosing, -⟩ := isAligned_fragmentsOf haligned helement _ hmustache
    exact Utf8.exists_slice_eq_encode (isBoundary_of_pairAt hopening (by decide)).2
      (isBoundary_of_pairAt hclosing (by decide)).1

/-- In a tree that is aligned with a text, what is decoded is read as a part of the text. -/
theorem exists_decodeBytes_of_isDecoded (haligned : root.IsAligned cs) {slice : List UInt8}
    (h : IsDecoded (Utf8.encode cs) root slice) :
    ∃ part, part <:+: cs ∧ decodeBytes slice = .ok part := by
  obtain ⟨part, hpart, rfl⟩ := exists_encode_of_isDecoded haligned h
  exact ⟨part, hpart, by rw [decodeBytes, Utf8.decode?_encode]⟩

end Aligned

end TranslationKeys.Component
