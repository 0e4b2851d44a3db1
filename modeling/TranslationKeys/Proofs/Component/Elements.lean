import TranslationKeys.Component.Parse
import TranslationKeys.Proofs.Component.Content
import TranslationKeys.Proofs.Node.Extraction
import TranslationKeys.Proofs.Node.Linking
import TranslationKeys.Proofs.Tree.Nodes

/-!
# Elements of a template

An element of a template gets a node of its own if it can be reached from the template through
contents in which no element on the way starts in a mustache. The node is met by the walk through
the template of the program, with all that its tag and its content hold.

An element that starts in a mustache is part of an expression, and with it all that the HTML grammar
puts below it. Elements after the mustache that are put there have no node.
-/

namespace TranslationKeys.Component

/-- An element can be reached from another one: each element on the way stands in the content of
the one before it and does not start in a mustache there. -/
inductive Reaches (ctx : Context) : TreeNode → TreeNode → Prop where
  /-- An element can be reached from itself. -/
  | here (element : TreeNode) : Reaches ctx element element
  /-- One step down into the content of an element. -/
  | step {element child target : TreeNode} {content : List Node}
      (hraw : element.kind ∉ rawTextKinds) (hchild : child ∈ element.namedChildren)
      (hkind : child.kind ∈ elementKinds)
      (hcontent : contentNodes ctx (innerStop element) (innerStart element) element.children =
        .ok content)
      (houtside : ¬ StartsInMustache content child) (hrest : Reaches ctx child target) :
      Reaches ctx element target

/-- In every element of a tree that has content, the children that take part in it are laid out
there. -/
def IsLaidOut (root : TreeNode) : Prop :=
  ∀ element ∈ root.nodes, element.kind = "element" →
    LaidOut (innerStart element) (innerStop element) element.children

instance (root : TreeNode) : Decidable (IsLaidOut root) :=
  inferInstanceAs (Decidable (∀ element ∈ root.nodes, _))

/-- What is laid out in a tree is laid out below each of its children. -/
theorem IsLaidOut.child {root child : TreeNode} (h : IsLaidOut root)
    (hchild : child ∈ root.children) : IsLaidOut child :=
  fun element helement => h element (TreeNode.mem_nodes_of_mem_children hchild helement)

/-- A child element that does not start in a mustache has its node in the content. -/
theorem exists_mem_content {ctx : Context} {element child : TreeNode} {content : List Node}
    (hcontent : contentNodes ctx (innerStop element) (innerStart element) element.children =
      .ok content)
    (hlaid : LaidOut (innerStart element) (innerStop element) element.children)
    (hchild : child ∈ element.namedChildren) (hkind : child.kind ∈ elementKinds)
    (houtside : ¬ StartsInMustache content child) :
    ∃ node ∈ content, elementNode ctx child = .ok node := by
  obtain ⟨hmem, hnamed⟩ := List.mem_filter.1 hchild
  have htakes : isContent child := by simp [isContent, hnamed, hkind]
  have hinside := hlaid.inside child hmem htakes
  obtain ⟨pieces, hbuilt, rfl⟩ := exists_built_of_contentNodes hcontent hlaid (by omega)
  rcases hbuilt.kept child hmem htakes with hbefore | hcomment | ⟨node, hpiece⟩ |
    ⟨opening, closing, expression, hpiece, hfirst, hlast⟩
  · omega
  · rw [hcomment.1] at hkind
    exact absurd hkind (by decide)
  · exact ⟨node, List.mem_flatMap.2 ⟨_, hpiece, List.mem_singleton.2 rfl⟩,
      (hbuilt.sound _ hpiece).2.2.2⟩
  · refine absurd ?_ houtside
    exact ⟨_, expression, opening, closing + 2,
      List.mem_flatMap.2 ⟨_, hpiece, List.mem_singleton.2 rfl⟩, rfl, Nat.le_of_lt hfirst, hlast⟩

/-- An element that can be reached from another one has its node in the pre-order of the node of
that one. -/
theorem Reaches.exists_mem_inOrder {ctx : Context} {element target : TreeNode} {node : Node}
    (h : Reaches ctx element target) (hlaid : IsLaidOut element)
    (hkind : element.kind ∈ elementKinds) (hnode : elementNode ctx element = .ok node) :
    ∃ found ∈ node.inOrder VisitorKeys.default, elementNode ctx target = .ok found := by
  induction h generalizing node with
  | here element => exact ⟨node, Node.mem_inOrder_self _ _, hnode⟩
  | @step element child target content hraw hchild hchildKind hcontent houtside _ ih =>
    have helement : element.kind = "element" := by
      simp only [elementKinds, rawTextKinds, List.mem_cons, List.not_mem_nil] at hkind hraw
      tauto
    obtain ⟨name, rawName, tag, content', closing, rfl, -, hbuilt⟩ := elementNode_eq_ok hnode
    obtain rfl : content' = content := Except.ok.inj ((hbuilt hraw).symm.trans hcontent)
    obtain ⟨childNode, hmem, hchildNode⟩ := exists_mem_content hcontent
      (hlaid element (TreeNode.mem_nodes_self _) helement) hchild hchildKind houtside
    obtain ⟨found, hfound, htarget⟩ :=
      ih (hlaid.child (TreeNode.mem_children_of_mem_namedChildren hchild)) hchildKind hchildNode
    refine ⟨found, Node.mem_inOrder_of_mem_heldNodes ?_ hfound, htarget⟩
    rw [Node.heldNodes_default]
    simp [Node.held, hmem]

/-- The grammar of template expressions: the one that was asked for, or that of the first script
block that names one. -/
def expressionGrammar (source : List UInt8) (blocks : List TreeNode)
    (scriptGrammar : Option String) : Except Failure String :=
  match scriptGrammar.filter (· != "") with
  | some grammar => pure grammar
  | none => grammarOfBlocks source blocks

/-- A component is parsed in four steps: its HTML tree, the grammar of its expressions, its blocks,
and the links of the program they make up. -/
theorem parse_eq (g : Grammars) (text : String) (scriptGrammar : Option String) :
    parse g text scriptGrammar =
      g.parse Grammar.html text >>= fun tree =>
        expressionGrammar (Utf8.encodeString text) tree.root.namedChildren scriptGrammar >>=
          fun grammar =>
            blockNodes ⟨g, Utf8.encodeString text, grammar⟩ none tree.root.namedChildren >>=
              fun parts => pure (Node.program
                { span := Span.bytes tree.root.start tree.root.stop } parts.1 parts.2).linked := by
  unfold parse expressionGrammar
  apply bind_congr
  intro tree
  cases scriptGrammar.filter (· != "") <;> rfl

/-- Blocks after a template leave it as it is. -/
theorem blockNodes_some {ctx : Context} {template : Node} {blocks : List TreeNode}
    {body : List Node} {found : Option Node}
    (h : blockNodes ctx (some template) blocks = .ok (body, found)) : found = some template := by
  induction blocks generalizing body with
  | nil => exact (Prod.mk.inj (Except.ok.inj h)).2.symm
  | cons block blocks ih =>
    rw [blockNodes] at h
    split at h
    · obtain ⟨statements, -, h⟩ := bind_eq_ok_iff.1 h
      obtain ⟨⟨rest, inner⟩, hrest, heq⟩ := bind_eq_ok_iff.1 h
      obtain ⟨-, rfl⟩ := Prod.mk.inj (Except.ok.inj heq)
      exact ih hrest
    · exact ih h

/-- As long as there is no template, a block that is no script is asked whether it is one. -/
theorem blockNodes_none_of_ne {ctx : Context} {block : TreeNode} {blocks : List TreeNode}
    (hkind : block.kind ≠ "script_element") :
    blockNodes ctx none (block :: blocks) =
      isTemplate ctx.source block >>= fun template =>
        if template then elementNode ctx block >>= fun node => blockNodes ctx (some node) blocks
        else blockNodes ctx none blocks := by
  rw [blockNodes, if_neg (by simpa using hkind)]
  rfl

/-- Only elements are templates. -/
theorem kind_eq_of_isTemplate {source : List UInt8} {block : TreeNode}
    (h : isTemplate source block = .ok true) : block.kind = "element" := by
  unfold isTemplate at h
  split at h
  · rename_i hkind
    exact eq_of_beq hkind
  · exact nomatch Except.ok.inj h

/-- The template of the blocks is the node of the first of them that is a template. -/
theorem blockNodes_template {ctx : Context} {before after : List TreeNode} {template : TreeNode}
    {body : List Node} {found : Option Node}
    (h : blockNodes ctx none (before ++ template :: after) = .ok (body, found))
    (hbefore : ∀ block ∈ before, isTemplate ctx.source block ≠ .ok true)
    (htemplate : isTemplate ctx.source template = .ok true) :
    ∃ node, elementNode ctx template = .ok node ∧ found = some node := by
  induction before generalizing body with
  | nil =>
    have hkind : template.kind ≠ "script_element" := by
      rw [kind_eq_of_isTemplate htemplate]
      decide
    rw [List.nil_append, blockNodes_none_of_ne hkind] at h
    obtain ⟨isOne, hisOne, h⟩ := bind_eq_ok_iff.1 h
    obtain rfl := Except.ok.inj (hisOne.symm.trans htemplate)
    obtain ⟨node, hnode, hafter⟩ := bind_eq_ok_iff.1 h
    exact ⟨node, hnode, blockNodes_some hafter⟩
  | cons block before ih =>
    obtain ⟨hblock, hrest⟩ := List.forall_mem_cons.1 hbefore
    by_cases hkind : block.kind = "script_element"
    · rw [List.cons_append, blockNodes, if_pos (by simpa using hkind)] at h
      obtain ⟨statements, -, h⟩ := bind_eq_ok_iff.1 h
      obtain ⟨⟨rest, inner⟩, hinner, heq⟩ := bind_eq_ok_iff.1 h
      obtain ⟨-, rfl⟩ := Prod.mk.inj (Except.ok.inj heq)
      exact ih hinner hrest
    · rw [List.cons_append, blockNodes_none_of_ne hkind] at h
      obtain ⟨isOne, hisOne, h⟩ := bind_eq_ok_iff.1 h
      cases isOne with
      | true => exact absurd hisOne hblock
      | false => exact ih h hrest

/-- The walk through the template of a finished program meets the nodes of the template, relinked,
in their pre-order. -/
theorem map_node_templatePlaces_linked (mark : Mark Node) (body : List Node) (template : Node) :
    (Node.program mark body (some template)).linked.templatePlaces.map Place.node =
      (template.inOrder VisitorKeys.default).map Node.relinked := by
  rw [← Node.inOrder_relinked]
  exact Place.map_node_preorder VisitorKeys.onlyDown_default _

/-- No element of a template is lost as long as none above it starts in a mustache. In a component
that is parsed, every element that can be reached from the first top-level template has its node,
with its links attached, among the places of the template. -/
theorem exists_templatePlace_of_reaches {g : Grammars} {text grammar : String}
    {scriptGrammar : Option String} {program : Node} {tree : SyntaxTree}
    {before after : List TreeNode} {template element : TreeNode}
    (hparse : parse g text scriptGrammar = .ok program)
    (htree : g.parse Grammar.html text = .ok tree)
    (hgrammar : expressionGrammar (Utf8.encodeString text) tree.root.namedChildren scriptGrammar =
      .ok grammar)
    (hblocks : tree.root.namedChildren = before ++ template :: after)
    (hbefore : ∀ block ∈ before, isTemplate (Utf8.encodeString text) block ≠ .ok true)
    (htemplate : isTemplate (Utf8.encodeString text) template = .ok true)
    (hlaid : IsLaidOut template)
    (hreaches : Reaches ⟨g, Utf8.encodeString text, grammar⟩ template element) :
    ∃ node, elementNode ⟨g, Utf8.encodeString text, grammar⟩ element = .ok node ∧
      ∃ place ∈ program.templatePlaces, place.node = node.relinked ∧
        place.node.tag = "VElement" ∧ place.node.Covers element.start element.stop := by
  rw [parse_eq] at hparse
  obtain ⟨tree', htree', h⟩ := bind_eq_ok_iff.1 hparse
  obtain rfl : tree' = tree := Except.ok.inj (htree'.symm.trans htree)
  obtain ⟨grammar', hgrammar', h⟩ := bind_eq_ok_iff.1 h
  obtain rfl : grammar' = grammar := Except.ok.inj (hgrammar'.symm.trans hgrammar)
  obtain ⟨⟨body, found⟩, hnodes, heq⟩ := bind_eq_ok_iff.1 h
  obtain rfl := Except.ok.inj heq
  rw [hblocks] at hnodes
  obtain ⟨root, hroot, rfl⟩ := blockNodes_template hnodes hbefore htemplate
  have hkind : template.kind ∈ elementKinds := by
    rw [kind_eq_of_isTemplate htemplate]
    decide
  obtain ⟨node, hmem, hnode⟩ := hreaches.exists_mem_inOrder hlaid hkind hroot
  have hplaces := map_node_templatePlaces_linked
    { span := Span.bytes tree'.root.start tree'.root.stop } body root
  have hrelinked : node.relinked ∈ (root.inOrder VisitorKeys.default).map Node.relinked :=
    List.mem_map_of_mem hmem
  rw [← hplaces] at hrelinked
  obtain ⟨place, hplace, hat⟩ := List.mem_map.1 hrelinked
  refine ⟨node, hnode, place, hplace, hat, ?_, ?_⟩
  · obtain ⟨name, rawName, tag, content, closing, rfl, -⟩ := elementNode_eq_ok hnode
    rw [hat]
    rfl
  · obtain ⟨name, rawName, tag, content, closing, rfl, -⟩ := elementNode_eq_ok hnode
    rw [Node.Covers, hat, Node.span_relinked]
    rfl

/-- A component whose mustache holds an element; another one follows it. -/
def sampleText : String := "<template>\x7b\x7b<br>\x7d\x7d<p></p></template>"

/-- The element of the sample that follows its mustache. -/
def sampleParagraph : TreeNode :=
  .mk "element" 18 25 true
    [.mk "start_tag" 18 21 true [.mk "tag_name" 19 20 true [] []] [],
      .mk "end_tag" 21 25 true [.mk "tag_name" 23 24 true [] []] []] []

/-- The template of the sample. -/
def sampleTemplate : TreeNode :=
  .mk "element" 0 36 true
    [.mk "start_tag" 0 10 true [.mk "tag_name" 1 9 true [] []] [], .mk "text" 10 12 true [] [],
      .mk "element" 12 16 true [.mk "start_tag" 12 16 true [.mk "tag_name" 13 15 true [] []] []] [],
      .mk "text" 16 18 true [] [], sampleParagraph,
      .mk "end_tag" 25 36 true [.mk "tag_name" 27 35 true [] []] []] []

/-- The HTML tree of the sample. -/
def sampleTree : SyntaxTree := ⟨.mk "document" 0 36 true [sampleTemplate] [], false⟩

/-- Grammars that know the HTML tree of the sample and find errors in every script. -/
def sampleGrammars : Grammars where
  installed _ := true
  tree? grammar _ :=
    some (if grammar == Grammar.html then sampleTree else ⟨.mk "program" 0 0 true [] [], true⟩)

/-- The nodes that the content of the template becomes. -/
def sampleNodes : List Node :=
  [.container { span := Span.bytes 10 18 } none,
    .element { span := Span.bytes 18 25 } "p" "p" (.startTag { span := Span.bytes 18 21 } [] false)
      [] (some (.endTag { span := Span.bytes 21 25 }))]

/-- The program of the sample. -/
def sampleProgram : Node :=
  (Node.program { span := Span.bytes 0 36 } []
    (some (.element { span := Span.bytes 0 36 } "template" "template"
      (.startTag { span := Span.bytes 0 10 } [] false) sampleNodes
      (some (.endTag { span := Span.bytes 25 36 }))))).linked

/-- The context in which the template of the sample is built. -/
def sampleSetting : Context :=
  ⟨sampleGrammars, Utf8.encodeString sampleText, Grammar.javascript⟩

/-- The paragraph of the sample can be reached from its template, although the element before it
starts in the mustache. -/
theorem reaches_sampleParagraph : Reaches sampleSetting sampleTemplate sampleParagraph := by
  have hcontent : contentNodes sampleSetting (innerStop sampleTemplate) (innerStart sampleTemplate)
      sampleTemplate.children = .ok sampleNodes := by cbv
  refine .step (by decide) ?_ (by decide) hcontent ?_ (.here _)
  · simp [TreeNode.namedChildren, sampleTemplate, sampleParagraph, TreeNode.children,
      TreeNode.named]
  · rintro ⟨mark, expression, first, last, hmem, hcovers, -, hlast⟩
    obtain ⟨rfl, rfl⟩ : mark = { span := Span.bytes 10 18 } ∧ expression = none := by
      simpa [sampleNodes] using hmem
    have hspan : (Node.container { span := Span.bytes 10 18 } none).Covers 10 18 := rfl
    obtain ⟨-, rfl⟩ := hspan.eq hcovers
    exact absurd hlast (by decide)

/-- The paragraph of the sample is met in the template of its program. -/
theorem exists_templatePlace_sampleParagraph :
    parse sampleGrammars sampleText none = .ok sampleProgram ∧
      IsLaidOut sampleTemplate ∧ Reaches sampleSetting sampleTemplate sampleParagraph ∧
      ∃ node, elementNode sampleSetting sampleParagraph = .ok node ∧
        ∃ place ∈ sampleProgram.templatePlaces, place.node = node.relinked ∧
          place.node.tag = "VElement" ∧ place.node.Covers 18 25 := by
  have hparse : parse sampleGrammars sampleText none = .ok sampleProgram := by cbv
  have hlaid : IsLaidOut sampleTemplate := by decide
  have htree : sampleGrammars.parse Grammar.html sampleText = .ok sampleTree := rfl
  have hblocks : sampleTree.root.namedChildren = [] ++ sampleTemplate :: [] := rfl
  have htemplate : isTemplate (Utf8.encodeString sampleText) sampleTemplate = .ok true := rfl
  exact ⟨hparse, hlaid, reaches_sampleParagraph, exists_templatePlace_of_reaches hparse htree rfl
    hblocks (by simp) htemplate hlaid reaches_sampleParagraph⟩

end TranslationKeys.Component
