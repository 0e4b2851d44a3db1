import TranslationKeys.Proofs.Component.Failures
import TranslationKeys.Proofs.Component.Parents
import TranslationKeys.Proofs.Script.Positions

/-!
# Positions in components

Scripts, mustaches and directive values are cut out of the source, decoded and parsed on their own.
Names and literals of scripts and mustaches cover the bytes of the component that spell them. Those
of a directive are placed as if what was parsed started where its value does: this is exact unless
a character reference was replaced in the value or the directive is `for`, of whose value only an
end is parsed.
-/

namespace TranslationKeys

namespace Node

/-- Whether a node is neither an element nor an attribute. -/
def isPlain : Node → Bool
  | element .. | tagAttribute .. => false
  | _ => true

/-- What holds throughout a tree does so if something weaker is asked. -/
theorem Throughout.imp {P Q : Node → Prop} {n : Node} (h : n.Throughout P)
    (himp : ∀ m, P m → Q m) : n.Throughout Q :=
  fun m hm => himp m (h m hm)

/-- A tree is plain throughout if its root is and what the root holds is. -/
theorem throughout_isPlain {n : Node} (hroot : n.isPlain = true)
    (hheld : ∀ m ∈ n.held, m.Throughout (isPlain · = true)) : n.Throughout (isPlain · = true) :=
  throughout_iff.2 ⟨hroot, hheld⟩

/-- A node that holds nothing is plain throughout. -/
theorem throughout_isPlain_of_held_eq_nil {n : Node} (h : n.held = []) :
    n.Throughout (isPlain · = true) := by
  refine throughout_isPlain ?_ (by simp [h])
  cases n with
  | element => exact nomatch h
  | tagAttribute => exact nomatch h
  | _ => rfl

/-- Linking a tree that is plain throughout leaves it so. -/
theorem Throughout.linkPlain {n : Node} (h : n.Throughout (isPlain · = true)) :
    (n.linkBelow VisitorKeys.default).Throughout (isPlain · = true) :=
  h.linkBelow (fun m hm => by cases m <;> exact hm) (fun m hm => by cases m <;> exact hm)

/-- Relinking a tree leaves its nodes where they are spelled. -/
theorem Throughout.relinkSpelled {n : Node} {bytes : List UInt8} {offset : Int}
    (h : n.Throughout (IsSpelledAt bytes offset)) :
    n.relinked.Throughout (IsSpelledAt bytes offset) :=
  h.linkSpelled.spelledWithParent .holder

/-- A relinked node is plain exactly if the node is. -/
theorem isPlain_relinked (n : Node) : n.relinked.isPlain = n.isPlain := by
  cases n <;> rfl

/-- A node that is relinked to a container with an expression is one. -/
theorem eq_container_of_relinked {n e : Node} {mark : Mark Node}
    (h : n.relinked = .container mark (some e)) :
    ∃ mark' e', n = .container mark' (some e') ∧ e = e'.relinked := by
  cases n with
  | container mark' expression =>
    cases expression with
    | none => exact nomatch (container.inj h).2
    | some e' => exact ⟨mark', e', rfl, (Option.some.inj (container.inj h).2).symm⟩
  | _ => exact nomatch h

end Node

namespace Script

variable {g : Grammars} {grammar text : String} {offset : Int}

/-- What a script tree becomes is plain throughout. -/
theorem throughout_isPlain_of_convert (source : List UInt8) (n : TreeNode) :
    (∀ node, (convert source offset n).node = .ok (some node) →
        node.Throughout (Node.isPlain · = true)) ∧
      ∀ nodes, (convert source offset n).inner = .ok nodes → ∀ node ∈ nodes,
        node.Throughout (Node.isPlain · = true) := by
  refine throughout_of_convert (P := (Node.isPlain · = true)) rfl n
    fun m _ hbare node hnode => ?_
  have hbecomes := becomes_of_node_convert hnode
  cases hbecomes with
  | unwrapped hkind hinner => exact absurd hinner (hbare.inner_ne hkind)
  | call | member | subscript | template | generic => rfl
  | leaf _ hheld => exact (Node.throughout_iff.1 (Node.throughout_isPlain_of_held_eq_nil hheld)).1

/-- An expression is plain throughout. -/
theorem throughout_isPlain_of_expression {node : Node}
    (h : expression g grammar text offset = .ok (some node)) :
    node.Throughout (Node.isPlain · = true) := by
  obtain ⟨tree, wrapper, inner, -, -, -, hinner, rfl⟩ := exists_of_expression h
  exact ((throughout_isPlain_of_convert _ wrapper).1 inner hinner).linkPlain

/-- Statements are plain throughout. -/
theorem throughout_isPlain_of_statements {nodes : List Node}
    (h : statements g grammar text offset = .ok (some nodes)) :
    ∀ node ∈ nodes, node.Throughout (Node.isPlain · = true) := by
  obtain ⟨tree, inner, -, hinner, rfl⟩ := exists_of_statements h
  rw [List.forall_mem_map]
  exact fun node hnode =>
    ((throughout_isPlain_of_convert _ tree.root).2 inner hinner node hnode).linkPlain

end Script

namespace Component

variable {ctx : Context}

/-- What of the value of a directive is parsed: what `for` runs over, or all of it. -/
def parsedPart? (name text : List Char) : Option (List Char) :=
  if String.ofList name = "for" then iterable? text else some text

/-- The part that is parsed is the end of the value. -/
theorem suffix_of_parsedPart? {name text part : List Char} (h : parsedPart? name text = some part) :
    part <:+ text := by
  unfold parsedPart? at h
  split at h
  · exact iterable?_suffix h
  · obtain rfl := Option.some.inj h
    exact List.suffix_refl _

/-- What a part of a directive's value is read as: an expression, what `for` runs over, or the
statements of `on`. -/
inductive IsReadAs (ctx : Context) (part : List Char) (offset : Int) : Node → Prop where
  | expression {node : Node} (h : Script.expression ctx.grammars ctx.grammar (String.ofList part)
      offset = .ok (some node)) : IsReadAs ctx part offset node
  | iteration {found : Option Node} (h : Script.expression ctx.grammars ctx.grammar
      (String.ofList part) offset = .ok found) :
      IsReadAs ctx part offset (.generic {} "VForExpression" found.toList)
  | statements {nodes : List Node} (h : Script.statements ctx.grammars ctx.grammar
      (String.ofList part) offset = .ok (some nodes)) :
      IsReadAs ctx part offset (.generic {} "VOnExpression" nodes)

/-- The node of a directive's value is what the parsed part of the value is read as. -/
theorem exists_isReadAs_of_directiveValue {name text : List Char} {offset : Int} {node : Node}
    (h : directiveValue ctx name text offset = .ok (some node)) :
    ∃ part, parsedPart? name text = some part ∧ IsReadAs ctx part offset node := by
  simp only [directiveValue] at h
  split at h
  · rename_i hfor
    split at h
    · cases h
    · rename_i part hpart
      obtain ⟨found, hfound, heq⟩ := bind_eq_ok_iff.1 h
      obtain rfl := Option.some.inj (Except.ok.inj heq)
      exact ⟨part, by rw [parsedPart?, if_pos hfor, hpart], .iteration hfound⟩
  · cases h
  · rename_i hon
    refine ⟨text, by rw [parsedPart?, hon, if_neg (by decide)], ?_⟩
    obtain ⟨found, hfound, h⟩ := bind_eq_ok_iff.1 h
    cases found with
    | some found =>
      obtain rfl := Option.some.inj (Except.ok.inj h)
      exact .expression hfound
    | none =>
      obtain ⟨nodes, hnodes, heq⟩ := bind_eq_ok_iff.1 h
      obtain ⟨nodes, rfl, rfl⟩ := Option.map_eq_some_iff.1 (Except.ok.inj heq)
      exact .statements hnodes
  · rename_i hfor _ _
    exact ⟨text, by rw [parsedPart?, if_neg hfor], .expression h⟩

/-- What a part is read as holds something throughout if expressions and statements do. -/
theorem IsReadAs.throughout {P : Node → Prop} {part : List Char} {offset : Int} {node : Node}
    (h : IsReadAs ctx part offset node)
    (hgeneric : ∀ mark tag children, P (.generic mark tag children))
    (hexpression : ∀ found, Script.expression ctx.grammars ctx.grammar (String.ofList part) offset =
      .ok (some found) → found.Throughout P)
    (hstatements : ∀ nodes, Script.statements ctx.grammars ctx.grammar (String.ofList part) offset =
      .ok (some nodes) → ∀ found ∈ nodes, found.Throughout P) : node.Throughout P := by
  cases h with
  | expression h => exact hexpression node h
  | iteration h =>
    refine Node.throughout_iff.2 ⟨hgeneric _ _ _, fun m hm => hexpression m ?_⟩
    rw [h, Option.mem_toList.1 hm]
  | statements h => exact Node.throughout_iff.2 ⟨hgeneric _ _ _, hstatements _ h⟩

/-- Names and literals of what a part is read as are spelled in the part, counted from where it is
said to start. -/
theorem IsReadAs.throughout_isSpelledAt {part : List Char} {offset : Int} {node : Node}
    (h : IsReadAs ctx part offset node) (hg : ctx.grammars.KeepPlaces) :
    node.Throughout (Node.IsSpelledAt (Utf8.encode part) offset) := by
  have hencode : Utf8.encodeString (String.ofList part) = Utf8.encode part := by
    rw [Utf8.encodeString, String.toList_ofList]
  rw [← hencode]
  exact h.throughout (fun _ _ _ => Node.isSpelledAt_of_none rfl)
    (fun _ => Script.throughout_isSpelledAt_of_expression hg)
    (fun _ => Script.throughout_isSpelledAt_of_statements hg)

/-- A directive's value is plain throughout. -/
theorem throughout_isPlain_of_directiveValue {name text : List Char} {offset : Int} {node : Node}
    (h : directiveValue ctx name text offset = .ok (some node)) :
    node.Throughout (Node.isPlain · = true) := by
  obtain ⟨part, -, hread⟩ := exists_isReadAs_of_directiveValue h
  exact hread.throughout (fun _ _ _ => rfl) (fun _ => Script.throughout_isPlain_of_expression)
    (fun _ => Script.throughout_isPlain_of_statements)

/-- The text of an attribute's value as it is written. -/
def writtenText (source : List UInt8) (value : TreeNode) : Except Failure (List Char) :=
  if isQuoted value then
    match value.firstOfKinds? ["attribute_value"] with
    | some inner => inner.text source
    | none => .ok []
  else value.text source

/-- The text of an attribute's value is what is written, its character references replaced. -/
theorem contentText_eq (source : List UInt8) (value : TreeNode) :
    contentText source value = writtenText source value >>= Html.unescape := by
  unfold contentText writtenText
  split
  · cases value.firstOfKinds? ["attribute_value"] <;> rfl
  · rfl

/-- An expression is that of a directive's value, which is written with character references and
read without. -/
structure IsValueOf (ctx : Context) (tree value : TreeNode) (name written text : List Char)
    (e : Node) : Prop where
  /-- The attribute has the value. -/
  holdsValue : tree.firstOfKinds? valueKinds = some value
  /-- The attribute is named as a directive. -/
  isNamed : ∃ raw directive, attributeName ctx.source tree = .ok raw ∧
    Directive.parse? raw = some directive ∧ directive.name = name
  /-- The value as it is written. -/
  isWritten : writtenText ctx.source value = .ok written
  /-- The value with its character references replaced. -/
  isRead : Html.unescape written = .ok text
  /-- The expression is that of the value. -/
  isExpression : directiveValue ctx name text (contentStart value) = .ok (some e)

/-- The name of a directive is plain throughout. -/
theorem throughout_isPlain_keyNode (raw : String) (d : Directive) :
    (d.keyNode raw).Throughout (Node.isPlain · = true) := by
  refine Node.throughout_isPlain rfl fun m hm => Node.throughout_isPlain_of_held_eq_nil ?_
  simp only [Directive.keyNode, Node.held, List.mem_cons, List.mem_append, Option.mem_toList,
    Option.map_eq_some_iff, List.mem_map] at hm
  obtain rfl | ⟨_, -, rfl⟩ | ⟨_, -, rfl⟩ := hm <;> rfl

/-- A plain attribute holds what is plain throughout. -/
theorem exists_of_plainAttribute {mark : Mark Node} {name : List Char} {value : Option TreeNode}
    {node : Node} (h : plainAttribute ctx mark name value = .ok node) :
    ∃ key literal, node = .tagAttribute mark false key literal ∧
      ∀ m ∈ node.held, m.Throughout (Node.isPlain · = true) := by
  obtain ⟨literal, hliteral, heq⟩ := bind_eq_ok_iff.1 h
  obtain rfl := Except.ok.inj heq
  refine ⟨_, _, rfl, List.forall_mem_cons.2 ⟨Node.throughout_isPlain_of_held_eq_nil rfl, ?_⟩⟩
  intro m hm
  obtain rfl := Option.mem_toList.1 hm
  obtain ⟨v, hv⟩ := exists_of_mapM_eq_ok_some hliteral
  obtain ⟨text, -, heq⟩ := bind_eq_ok_iff.1 hv
  obtain rfl := Except.ok.inj heq
  exact Node.throughout_isPlain_of_held_eq_nil rfl

/-- A directive holds what is plain throughout, and its container holds the expression of its
value. -/
theorem exists_of_directiveAttribute {mark : Mark Node} {name : List Char} {directive : Directive}
    {value : Option TreeNode} {node : Node}
    (h : directiveAttribute ctx mark name directive value = .ok node) :
    ∃ key container, node = .tagAttribute mark true key container ∧
      (∀ m ∈ node.held, m.Throughout (Node.isPlain · = true)) ∧
      ∀ containerMark e, container = some (.container containerMark (some e)) →
        ∃ v text, value = some v ∧ contentText ctx.source v = .ok text ∧
          directiveValue ctx directive.name text (contentStart v) = .ok (some e) := by
  obtain ⟨container, hcontainer, heq⟩ := bind_eq_ok_iff.1 h
  obtain rfl := Except.ok.inj heq
  cases value with
  | none =>
    obtain rfl := Except.ok.inj hcontainer
    refine ⟨_, _, rfl, List.forall_mem_cons.2 ⟨throughout_isPlain_keyNode _ _, by simp⟩, ?_⟩
    exact fun _ _ hnone => nomatch hnone
  | some v =>
    obtain ⟨built, hbuilt, heq⟩ := bind_eq_ok_iff.1 hcontainer
    obtain rfl := Except.ok.inj heq
    obtain ⟨text, htext, hbuilt⟩ := bind_eq_ok_iff.1 hbuilt
    obtain ⟨expression, hexpression, heq⟩ := bind_eq_ok_iff.1 hbuilt
    obtain rfl := Except.ok.inj heq
    refine ⟨_, _, rfl, List.forall_mem_cons.2 ⟨throughout_isPlain_keyNode _ _, ?_⟩, ?_⟩
    · refine List.forall_mem_singleton.2 (Node.throughout_isPlain rfl fun m hm => ?_)
      obtain rfl := Option.mem_toList.1 hm
      exact throughout_isPlain_of_directiveValue hexpression
    · intro containerMark e hsome
      obtain ⟨-, rfl⟩ := Node.container.inj (Option.some.inj hsome)
      exact ⟨v, text, rfl, htext, hexpression⟩

/-- An attribute covers its place and holds what is plain throughout; the container of a directive
holds the expression of its value. -/
theorem exists_of_attributeNode {tree : TreeNode} {node : Node}
    (h : attributeNode ctx tree = .ok node) :
    ∃ mark directive key value, node = .tagAttribute mark directive key value ∧
      mark.span = Span.bytes tree.start tree.stop ∧
      (∀ m ∈ node.held, m.Throughout (Node.isPlain · = true)) ∧
      ∀ containerMark e, directive = true → value = some (.container containerMark (some e)) →
        ∃ value name written text, IsValueOf ctx tree value name written text e := by
  obtain ⟨raw, hraw, h⟩ := bind_eq_ok_iff.1 h
  simp only at h
  split at h
  · obtain ⟨key, literal, rfl, hheld⟩ := exists_of_plainAttribute h
    exact ⟨_, _, _, _, rfl, rfl, hheld, fun _ _ hdirective => nomatch hdirective⟩
  · rename_i directive hdirective
    obtain ⟨key, container, rfl, hheld, hcontainer⟩ := exists_of_directiveAttribute h
    refine ⟨_, _, _, _, rfl, rfl, hheld, fun containerMark e _ hvalue => ?_⟩
    obtain ⟨v, text, hv, htext, hexpression⟩ := hcontainer containerMark e hvalue
    rw [contentText_eq] at htext
    obtain ⟨written, hwritten, htext⟩ := bind_eq_ok_iff.1 htext
    exact ⟨v, directive.name, written, text, hv, ⟨raw, directive, hraw, hdirective, rfl⟩, hwritten,
      htext, hexpression⟩

/-- A node of a template is plain, or it is that of an attribute or an element of the tree. -/
inductive IsMadeOf (ctx : Context) (root : TreeNode) (n : Node) : Prop where
  | plain (h : n.isPlain = true)
  | ofAttribute {tree : TreeNode} (htree : tree ∈ root.nodes) (h : attributeNode ctx tree = .ok n)
  | ofElement {tree : TreeNode} (htree : tree ∈ root.nodes) (h : elementNode ctx tree = .ok n)

/-- What is plain throughout is made of a tree. -/
theorem throughout_isMadeOf_of_isPlain {root : TreeNode} {n : Node}
    (h : n.Throughout (Node.isPlain · = true)) : n.Throughout (IsMadeOf ctx root) :=
  h.imp fun _ => .plain

/-- A mustache is plain throughout. -/
theorem throughout_isPlain_of_mustache {opening closing : Nat} {node : Node}
    (h : mustache ctx opening closing = .ok node) : node.Throughout (Node.isPlain · = true) := by
  obtain ⟨content, -, h⟩ := bind_eq_ok_iff.1 h
  obtain ⟨expression, hexpression, heq⟩ := bind_eq_ok_iff.1 h
  obtain rfl := Except.ok.inj heq
  refine Node.throughout_isPlain rfl fun m hm => ?_
  obtain rfl := Option.mem_toList.1 hm
  exact Script.throughout_isPlain_of_expression hexpression

/-- The nodes of an element are made of the tree that it stands in. -/
theorem throughout_isMadeOf {root : TreeNode} (n : TreeNode) (hn : n ∈ root.nodes) {node : Node}
    (h : elementNode ctx n = .ok node) : node.Throughout (IsMadeOf ctx root) := by
  induction n using TreeNode.induction generalizing node with
  | step n ih =>
    have hself := IsMadeOf.ofElement hn h
    obtain ⟨mark, name, rawName, tag, content, closing, rfl, htag, hcontent⟩ :=
      exists_of_elementNode (Q := Node.Throughout (IsMadeOf ctx root))
        (fun _ _ => throughout_isMadeOf_of_isPlain (Node.throughout_isPlain_of_held_eq_nil rfl))
        (fun _ _ _ _ hm => throughout_isMadeOf_of_isPlain (throughout_isPlain_of_mustache hm))
        (fun child hchild node => ih child hchild (TreeNode.mem_nodes_child hn hchild)) h
    have hattribute : ∀ opening ∈ openingTag? n, ∀ child ∈ opening.namedChildren, ∀ a,
        attributeNode ctx child = .ok a → a.Throughout (IsMadeOf ctx root) := by
      intro opening hopening child hchild a ha
      have hmem := TreeNode.mem_nodes_child (TreeNode.mem_nodes_firstOfKinds? hn hopening)
        (TreeNode.mem_children_of_mem_namedChildren hchild)
      obtain ⟨_, _, _, _, rfl, -, hheld, -⟩ := exists_of_attributeNode ha
      exact Node.throughout_iff.2 ⟨.ofAttribute hmem ha, fun m hm =>
        throughout_isMadeOf_of_isPlain (hheld m hm)⟩
    obtain ⟨tagMark, attributes, selfClosing, rfl, hattributes⟩ := exists_of_tagNode hattribute htag
    refine Node.throughout_iff.2 ⟨hself, List.forall_mem_cons.2 ⟨?_, ?_⟩⟩
    · exact Node.throughout_iff.2 ⟨.plain rfl, hattributes⟩
    · refine List.forall_mem_append.2 ⟨hcontent, fun m hm => ?_⟩
      obtain ⟨last, -, rfl⟩ := Option.map_eq_some_iff.1 (Option.mem_toList.1 hm)
      exact throughout_isMadeOf_of_isPlain (Node.throughout_isPlain_of_held_eq_nil rfl)

/-- What is spelled in a text that was read between two positions is spelled in the source. -/
theorem throughout_isSpelledAt_of_decodeBytes {source : List UInt8} {first last : Nat}
    {cs : List Char} {n : Node} {offset : Int}
    (hread : decodeBytes (Utf8.slice source first last) = .ok cs) (hfirst : first ≤ source.length)
    (h : n.Throughout (Node.IsSpelledAt (Utf8.encode cs) (first + offset))) :
    n.Throughout (Node.IsSpelledAt source offset) := by
  refine h.imp fun m hm => ?_
  rw [← decodeBytes_eq_ok_iff.1 hread] at hm
  have hspelled := hm.of_slice hfirst
  rwa [add_sub_cancel_left] at hspelled

/-- Names and literals of a mustache are spelled at their places in the source. -/
theorem throughout_isSpelledAt_of_mustache (hg : ctx.grammars.KeepPlaces) {opening closing : Nat}
    {mark : Mark Node} {e : Node} (hopening : opening + 2 ≤ ctx.source.length)
    (h : mustache ctx opening closing = .ok (.container mark (some e))) :
    e.Throughout (Node.IsSpelledAt ctx.source 0) := by
  obtain ⟨content, hcontent, h⟩ := bind_eq_ok_iff.1 h
  obtain ⟨expression, hexpression, heq⟩ := bind_eq_ok_iff.1 h
  obtain ⟨-, rfl⟩ := Node.container.inj (Except.ok.inj heq)
  have hspelled := Script.throughout_isSpelledAt_of_expression hg hexpression
  rw [Utf8.encodeString, String.toList_ofList] at hspelled
  exact throughout_isSpelledAt_of_decodeBytes hcontent hopening (by rwa [Int.add_zero])

/-- Names and literals of a script block are spelled at their places in the source. -/
theorem throughout_isSpelledAt_of_scriptBlock (hg : ctx.grammars.KeepPlaces) {block : TreeNode}
    {statements : List Node} (hblock : block.LiesBetween 0 ctx.source.length)
    (h : scriptBlock ctx block = .ok statements) :
    ∀ n ∈ statements, n.Throughout (Node.IsSpelledAt ctx.source 0) := by
  unfold scriptBlock at h
  split at h
  · obtain rfl := Except.ok.inj h
    simp
  · rename_i raw hraw
    obtain ⟨lang, -, h⟩ := bind_eq_ok_iff.1 h
    obtain ⟨text, htext, h⟩ := bind_eq_ok_iff.1 h
    obtain ⟨program, hprogram, heq⟩ := bind_eq_ok_iff.1 h
    obtain rfl := Except.ok.inj heq
    obtain ⟨-, hle, hstop⟩ :=
      hblock raw (TreeNode.mem_nodes_firstOfKinds? block.mem_nodes_self hraw)
    have hspelled := Script.throughout_isSpelledAt_of_parse hg hprogram
    rw [Utf8.encodeString, String.toList_ofList] at hspelled
    intro n hn
    unfold bodyOf at hn
    split at hn
    · obtain ⟨statement, hstatement, rfl⟩ := List.mem_map.1 hn
      refine throughout_isSpelledAt_of_decodeBytes htext (hle.trans hstop) ?_
      rw [Int.add_zero]
      exact (hspelled statement hstatement).spelledWithParent (.given _)
    · exact absurd hn List.not_mem_nil

/-- The scripts of the blocks are those of script blocks, and the template is the one given or that
of a block. -/
theorem exists_of_blockNodes {template found : Option Node} {blocks : List TreeNode}
    {body : List Node} (h : blockNodes ctx template blocks = .ok (body, found)) :
    (∀ n ∈ body, ∃ block ∈ blocks, ∃ statements, scriptBlock ctx block = .ok statements ∧
        n ∈ statements) ∧
      ∀ t ∈ found, t ∈ template ∨ ∃ block ∈ blocks, elementNode ctx block = .ok t := by
  induction blocks generalizing template body found with
  | nil =>
    obtain ⟨rfl, rfl⟩ := Prod.mk.inj (Except.ok.inj h)
    exact ⟨by simp, fun t ht => .inl ht⟩
  | cons block blocks ih =>
    -- What is found in the blocks after the first one is found in all.
    have hlater {template found : Option Node} {body : List Node}
        (h : blockNodes ctx template blocks = .ok (body, found)) :
        (∀ n ∈ body, ∃ b ∈ block :: blocks, ∃ statements, scriptBlock ctx b = .ok statements ∧
            n ∈ statements) ∧
          ∀ t ∈ found, t ∈ template ∨ ∃ b ∈ block :: blocks, elementNode ctx b = .ok t := by
      obtain ⟨hbody, htemplate⟩ := ih h
      refine ⟨fun n hn => ?_, fun t ht => (htemplate t ht).imp_right ?_⟩
      · obtain ⟨b, hb, hrest⟩ := hbody n hn
        exact ⟨b, List.mem_cons_of_mem _ hb, hrest⟩
      · rintro ⟨b, hb, hrest⟩
        exact ⟨b, List.mem_cons_of_mem _ hb, hrest⟩
    rw [blockNodes] at h
    split at h
    · obtain ⟨statements, hstatements, h⟩ := bind_eq_ok_iff.1 h
      obtain ⟨⟨rest, inner⟩, hrest, heq⟩ := bind_eq_ok_iff.1 h
      obtain ⟨rfl, rfl⟩ := Prod.mk.inj (Except.ok.inj heq)
      obtain ⟨hbody, htemplate⟩ := hlater hrest
      refine ⟨List.forall_mem_append.2 ⟨fun n hn => ?_, hbody⟩, htemplate⟩
      exact ⟨block, List.mem_cons_self, statements, hstatements, hn⟩
    · split at h
      · rename_i hnone
        obtain ⟨isOne, -, h⟩ := bind_eq_ok_iff.1 h
        cases isOne with
        | true =>
          obtain ⟨node, hnode, h⟩ := bind_eq_ok_iff.1 h
          obtain ⟨hbody, htemplate⟩ := hlater h
          refine ⟨hbody, fun t ht => .inr ((htemplate t ht).elim ?_ id)⟩
          intro hself
          obtain rfl := Option.some.inj hself
          exact ⟨block, List.mem_cons_self, hnode⟩
        | false =>
          obtain ⟨hbody, htemplate⟩ := hlater h
          exact ⟨hbody, fun t ht => .inr ((htemplate t ht).resolve_left (Option.not_mem_none t))⟩
      · exact hlater h

/-- The program of a component is made of the scripts and the template of its blocks. -/
theorem exists_of_parse {g : Grammars} {text : String} {scriptGrammar : Option String}
    {program : Node} (h : parse g text scriptGrammar = .ok program) :
    ∃ tree grammar mark body template, g.parse Grammar.html text = .ok tree ∧
      blockNodes ⟨g, Utf8.encodeString text, grammar⟩ none tree.root.namedChildren =
        .ok (body, template) ∧
      program = (Node.program mark body template).linked := by
  rw [parse_eq] at h
  obtain ⟨tree, htree, h⟩ := bind_eq_ok_iff.1 h
  obtain ⟨grammar, -, h⟩ := bind_eq_ok_iff.1 h
  obtain ⟨⟨body, template⟩, hblocks, heq⟩ := bind_eq_ok_iff.1 h
  exact ⟨tree, grammar, _, body, template, htree, hblocks, (Except.ok.inj heq).symm⟩

/-- The node at a place of the template of a component is made of the HTML tree of the component,
and relinked. -/
theorem exists_isMadeOf_of_templatePlace {g : Grammars} {text : String}
    {scriptGrammar : Option String} {program : Node} {place : Place}
    (h : parse g text scriptGrammar = .ok program) (hplace : place ∈ program.templatePlaces) :
    ∃ tree grammar n, g.parse Grammar.html text = .ok tree ∧
      IsMadeOf ⟨g, Utf8.encodeString text, grammar⟩ tree.root n ∧ place.node = n.relinked := by
  obtain ⟨tree, grammar, mark, body, template, htree, hblocks, rfl⟩ := exists_of_parse h
  cases template with
  | none => exact absurd hplace List.not_mem_nil
  | some template =>
    have hnode := List.mem_map_of_mem (f := Place.node) hplace
    rw [map_node_templatePlaces_linked] at hnode
    obtain ⟨n, hn, heq⟩ := List.mem_map.1 hnode
    obtain hnone | ⟨block, hblock, htemplate⟩ := (exists_of_blockNodes hblocks).2 template rfl
    · exact nomatch hnone
    · have hmem := TreeNode.mem_nodes_of_mem_children
        (TreeNode.mem_children_of_mem_namedChildren hblock) block.mem_nodes_self
      exact ⟨tree, grammar, n, htree, throughout_isMadeOf block hmem htemplate n hn, heq.symm⟩

/-- A node stands in a script of a program, or in a mustache of its template. -/
inductive StandsInCode (program : Node) (n : Node) : Prop where
  | script {statement : Node} (hstatement : statement ∈ program.held)
      (hn : n ∈ statement.inOrder VisitorKeys.default)
  | mustache {place : Place} {mark containerMark : Mark Node} {name rawName : String}
      {tag expression : Node} {children : List Node} {closing : Option Node}
      (hplace : place ∈ program.templatePlaces)
      (helement : place.node = .element mark name rawName tag children closing)
      (hmustache : .container containerMark (some expression) ∈ children)
      (hn : n ∈ expression.inOrder VisitorKeys.default)

/-- A container in the content of an element is a mustache that opens in the source. -/
theorem exists_mustache_of_elementNode {tree : TreeNode} {mark containerMark : Mark Node}
    {name rawName : String} {tag : Node} {content : List Node} {closing expression : Option Node}
    (h : elementNode ctx tree = .ok (.element mark name rawName tag content closing))
    (hcontainer : .container containerMark expression ∈ content) :
    ∃ opening closing, opening + 2 ≤ ctx.source.length ∧
      mustache ctx opening closing = .ok (.container containerMark expression) := by
  have helements : ∀ child ∈ tree.children, ∀ n, elementNode ctx child = .ok n →
      n = .container containerMark expression → ∃ opening closing,
        opening + 2 ≤ ctx.source.length ∧ mustache ctx opening closing = .ok n := by
    intro child _ n hn heq
    obtain ⟨_, _, _, _, _, rfl, -⟩ := elementNode_eq_ok hn
    exact nomatch heq
  obtain ⟨_, _, _, _, _, _, heq, -, hcontent⟩ := exists_of_elementNode
    (fun _ _ heq => nomatch heq)
    (fun opening closing _ hopening hmustache _ => ⟨opening, closing, hopening, hmustache⟩)
    helements h
  obtain ⟨-, -, -, -, rfl, -⟩ := Node.element.inj heq
  exact hcontent _ hcontainer rfl

/-- A scan that has come to its limit finds nothing. -/
theorem scan_of_le {stop limit cursor : Nat} (h : limit ≤ cursor) :
    scan ctx stop limit cursor = .ok ([], cursor) := by
  rw [scan, dif_neg (by omega)]

/-- A scan finds the text before a mustache, the mustache and what comes after it. -/
theorem scan_of_opens {stop limit cursor opening closing : Nat}
    (hopens : findPairBetween? ctx.source openingByte cursor limit = some opening)
    (hcloses : findPairBetween? ctx.source closingByte (opening + 2) stop = some closing) :
    scan ctx stop limit cursor =
      textBetween ctx cursor opening >>= fun before =>
        mustache ctx opening closing >>= fun expression =>
          scan ctx stop limit (closing + 2) >>= fun after =>
            pure (before ++ expression :: after.1, after.2) := by
  have hinside : cursor < limit := by
    obtain ⟨hle, hlast, -⟩ := first_of_findPairBetween? hopens
    omega
  rw [scan, dif_pos hinside]
  split
  · rename_i hnone
    exact nomatch hopens.symm.trans hnone
  · rename_i opening' hopens'
    obtain rfl := Option.some.inj (hopens.symm.trans hopens')
    split
    · rename_i hnone
      exact nomatch hcloses.symm.trans hnone
    · rename_i closing' hcloses'
      obtain rfl := Option.some.inj (hcloses.symm.trans hcloses')
      rfl

section Parsed

variable {g : Grammars} {text : String} {scriptGrammar : Option String} {program : Node}

/-- Names and literals of the scripts of a component are spelled at their places in it. -/
theorem throughout_isSpelledAt_of_mem_held (hg : g.KeepPlaces)
    (h : parse g text scriptGrammar = .ok program) :
    ∀ n ∈ program.held, n.Throughout (Node.IsSpelledAt (Utf8.encodeString text) 0) := by
  obtain ⟨tree, grammar, mark, body, template, htree, hblocks, rfl⟩ := exists_of_parse h
  have hlies := hg.inText _ _ _ (Grammars.tree?_of_parse htree)
  rw [Node.held_linked, List.forall_mem_map]
  intro n hn
  obtain ⟨block, hblock, statements, hstatements, hmem⟩ := (exists_of_blockNodes hblocks).1 n hn
  refine (throughout_isSpelledAt_of_scriptBlock hg ?_ hstatements n hmem).relinkSpelled
  intro m hm
  exact hlies m (TreeNode.mem_nodes_of_mem_children
    (TreeNode.mem_children_of_mem_namedChildren hblock) hm)

/-- Names and literals of the mustaches of a component are spelled at their places in it. -/
theorem throughout_isSpelledAt_of_mem_children (hg : g.KeepPlaces) {place : Place}
    {mark containerMark : Mark Node} {name rawName : String} {tag e : Node} {children : List Node}
    {closing : Option Node} (h : parse g text scriptGrammar = .ok program)
    (hplace : place ∈ program.templatePlaces)
    (helement : place.node = .element mark name rawName tag children closing)
    (hmustache : .container containerMark (some e) ∈ children) :
    e.Throughout (Node.IsSpelledAt (Utf8.encodeString text) 0) := by
  obtain ⟨tree, grammar, n, htree, hmade, heq⟩ := exists_isMadeOf_of_templatePlace h hplace
  rw [helement] at heq
  cases hmade with
  | plain hplain =>
    rw [← Node.isPlain_relinked, ← heq] at hplain
    exact nomatch hplain
  | ofAttribute _ hattribute =>
    obtain ⟨_, _, _, _, rfl, -⟩ := exists_of_attributeNode hattribute
    exact nomatch heq
  | ofElement _ hnode =>
    obtain ⟨_, _, _, content, _, rfl, -⟩ := elementNode_eq_ok hnode
    have hcontent : children = content.map Node.relinked := by
      rw [← Node.linkEach_true]
      exact (Node.element.inj heq).2.2.2.2.1
    rw [hcontent] at hmustache
    obtain ⟨c, hc, hrelinked⟩ := List.mem_map.1 hmustache
    obtain ⟨_, e', rfl, rfl⟩ := Node.eq_container_of_relinked hrelinked
    obtain ⟨opening, closing, hopening, hmustache⟩ := exists_mustache_of_elementNode hnode hc
    exact (throughout_isSpelledAt_of_mustache hg hopening hmustache).relinkSpelled

/-- Positions in scripts and mustaches are exact. A name, string, number or pattern there covers
bytes of the component that are decoded to the way it is written, whatever characters stand before
it or in it. -/
theorem exists_bytes_of_standsInCode (hg : g.KeepPlaces)
    (h : parse g text scriptGrammar = .ok program) {n : Node} (hn : StandsInCode program n)
    {s : String} (hs : n.spelling? = some s) :
    ∃ start stop : Nat, n.mark.span = Span.bytes start stop ∧ start ≤ stop ∧
      stop ≤ (Utf8.encodeString text).length ∧
      Utf8.decode? (Utf8.slice (Utf8.encodeString text) start stop) = some s.toList := by
  have hspelled : n.IsSpelledAt (Utf8.encodeString text) 0 := by
    cases hn with
    | script hstatement hn => exact throughout_isSpelledAt_of_mem_held hg h _ hstatement n hn
    | mustache hplace helement hmustache hn =>
      exact throughout_isSpelledAt_of_mem_children hg h hplace helement hmustache n hn
  obtain ⟨start, stop, hle, hstop, hspan, hdecoded⟩ := hspelled s hs
  refine ⟨start, stop, ?_, hle, hstop, hdecoded⟩
  rw [hspan, Int.add_zero, Int.add_zero]

end Parsed

/-- A component with names beyond ASCII in a directive and in a mustache. -/
def sampleAccents : String := "<template v-for=\"a of ö\">é\x7b\x7b ü \x7d\x7d</template>"

/-- The directive in the HTML tree of the component. -/
def sampleIterationTree : TreeNode :=
  .mk "attribute" 10 25 true
    [.mk "attribute_name" 10 15 true [] [],
      .mk "quoted_attribute_value" 16 25 true [.mk "attribute_value" 17 24 true [] []] []] []

/-- The template in the HTML tree of the component. -/
def sampleAccentsTree : TreeNode :=
  .mk "element" 0 47 true
    [.mk "start_tag" 0 26 true [.mk "tag_name" 1 9 true [] [], sampleIterationTree] [],
      .mk "text" 26 36 true [] [], .mk "end_tag" 36 47 true [.mk "tag_name" 38 46 true [] []] []] []

/-- The tree of a name in parentheses. -/
def sampleWrapped (length first last : Nat) : TreeNode :=
  .mk "program" 0 length true
    [.mk "expression_statement" 0 length true
      [.mk "parenthesized_expression" 0 length true
        [.mk "identifier" first last true [] []] []] []] []

/-- The texts of the component that are parsed, with their trees. -/
def sampleAccentsTrees : List (String × TreeNode) :=
  [(sampleAccents, .mk "document" 0 47 true [sampleAccentsTree] []),
    ("(ö)", sampleWrapped 4 1 3), ("( ü )", sampleWrapped 6 2 4)]

/-- Grammars that know the trees of the component. -/
def sampleAccentsGrammars : Grammars where
  installed _ := true
  tree? _ text := (sampleAccentsTrees.lookup text).map (⟨·, false⟩)

/-- The grammars give no other trees than those of the component. -/
theorem mem_sampleAccentsTrees {grammar text : String} {tree : SyntaxTree}
    (h : sampleAccentsGrammars.tree? grammar text = some tree) :
    (text, tree.root) ∈ sampleAccentsTrees := by
  obtain ⟨root, hroot, rfl⟩ := Option.map_eq_some_iff.1 h
  obtain ⟨before, after, hsplit, -⟩ := List.lookup_eq_some_iff.1 hroot
  rw [hsplit]
  exact List.mem_append_right _ List.mem_cons_self

/-- The trees of the component keep to their places. -/
theorem keepPlaces_sampleAccents : sampleAccentsGrammars.KeepPlaces := by
  constructor
  · intro grammar text tree htree
    have hall : ∀ entry ∈ sampleAccentsTrees,
        entry.2.LiesBetween 0 (Utf8.encodeString entry.1).length := by decide +kernel
    exact hall _ (mem_sampleAccentsTrees htree)
  · intro grammar text tree wrapper htree _ hwrapper child hchild
    have hall : ∀ entry ∈ sampleAccentsTrees, ∀ wrapper ∈ Script.onlyExpression? entry.2,
        ∀ child ∈ wrapper.namedChildren,
          child.LiesBetween 1 ((Utf8.encodeString entry.1).length - 1) := by decide +kernel
    have hlies := hall _ (mem_sampleAccentsTrees htree) wrapper hwrapper child hchild
    have hlength := congrArg List.length (Script.encodeString_parenthesised text)
    rw [List.length_append, List.length_append] at hlength
    rwa [hlength, Nat.add_comm (Utf8.encode ['(']).length] at hlies

/-- The expression of the directive of the component. -/
def sampleIterationValue : Node :=
  .generic {} "VForExpression" [.identifier { span := Span.bytes 17 19 } "ö"]

/-- The directive of the component. -/
def sampleIteration : Node :=
  .tagAttribute { span := Span.bytes 10 25 } true
    (.directiveKey {} (.templateName {} "for" "v-for") none [])
    (some (.container { span := Span.bytes 17 24 } (some sampleIterationValue)))

/-- The mustache of the component. -/
def sampleMustache : Node :=
  .container { span := Span.bytes 28 36 } (some (.identifier { span := Span.bytes 31 33 } "ü"))

/-- The template of the component. -/
def sampleAccentsTemplate : Node :=
  .element { span := Span.bytes 0 47 } "template" "template"
    (.startTag { span := Span.bytes 0 26 } [sampleIteration] false)
    [.templateText { span := Span.bytes 26 28 } "é", sampleMustache]
    (some (.endTag { span := Span.bytes 36 47 }))

/-- The program of the component. -/
def sampleAccentsProgram : Node :=
  (Node.program { span := Span.bytes 0 47 } [] (some sampleAccentsTemplate)).linked

/-- The encoding of the component. -/
def sampleAccentsBytes : List UInt8 :=
  [60, 116, 101, 109, 112, 108, 97, 116, 101, 32, 118, 45, 102, 111, 114, 61, 34, 97, 32, 111, 102,
    32, 195, 182, 34, 62, 195, 169, 123, 123, 32, 195, 188, 32, 125, 125, 60, 47, 116, 101, 109,
    112, 108, 97, 116, 101, 62]

/-- The context in which the template of the component is built. -/
def sampleAccentsSetting : Context :=
  ⟨sampleAccentsGrammars, sampleAccentsBytes, Grammar.javascript⟩

/-- The content of the template. -/
theorem contentNodes_sampleAccents :
    contentNodes sampleAccentsSetting 36 26 sampleAccentsTree.children =
      .ok [.templateText { span := Span.bytes 26 28 } "é", sampleMustache] := by
  have htext : textBetween sampleAccentsSetting 26 28 =
      .ok [.templateText { span := Span.bytes 26 28 } "é"] := by cbv
  have hmustache : mustache sampleAccentsSetting 28 34 = .ok sampleMustache := rfl
  have hopens : findPairBetween? sampleAccentsSetting.source openingByte 26 36 = some 28 := rfl
  have hcloses : findPairBetween? sampleAccentsSetting.source closingByte (28 + 2) 36 = some 34 :=
    rfl
  have hscan : scan sampleAccentsSetting 36 36 26 =
      .ok ([.templateText { span := Span.bytes 26 28 } "é", sampleMustache], 36) := by
    rw [scan_of_opens hopens hcloses, scan_of_le (by decide), htext, hmustache]
    rfl
  rw [sampleAccentsTree, TreeNode.children, contentNodes, if_pos (by decide), contentNodes,
    if_pos (by decide), contentNodes, if_pos (by decide), contentNodes, hscan]
  rfl

/-- The component is parsed. -/
theorem parse_sampleAccents :
    parse sampleAccentsGrammars sampleAccents none = .ok sampleAccentsProgram := by
  have hencode : Utf8.encodeString sampleAccents = sampleAccentsBytes := by decide +kernel
  have helement : elementNode sampleAccentsSetting sampleAccentsTree =
      .ok sampleAccentsTemplate := by
    rw [sampleAccentsTree, elementNode]
    refine bind_eq_ok_iff.2 ⟨"template".toList, rfl, bind_eq_ok_iff.2 ⟨_, rfl, ?_⟩⟩
    rw [if_neg (by decide)]
    exact bind_eq_ok_iff.2 ⟨_, contentNodes_sampleAccents, rfl⟩
  have hblocks : blockNodes sampleAccentsSetting none [sampleAccentsTree] =
      .ok ([], some sampleAccentsTemplate) := by
    rw [blockNodes_none_of_ne (by decide)]
    exact bind_eq_ok_iff.2 ⟨true, rfl, bind_eq_ok_iff.2 ⟨_, helement, rfl⟩⟩
  rw [parse_eq, hencode]
  exact bind_eq_ok_iff.2 ⟨_, rfl, bind_eq_ok_iff.2 ⟨Grammar.javascript, rfl,
    bind_eq_ok_iff.2 ⟨_, hblocks, rfl⟩⟩⟩

/-- The name in the mustache of the component covers the bytes that spell it. -/
theorem exists_bytes_sampleMustache :
    sampleAccentsGrammars.KeepPlaces ∧
      parse sampleAccentsGrammars sampleAccents none = .ok sampleAccentsProgram ∧
      StandsInCode sampleAccentsProgram
        (.identifier { span := Span.bytes 31 33, parent := .holder } "ü") ∧
      ∃ start stop : Nat, Span.bytes 31 33 = Span.bytes start stop ∧ start ≤ stop ∧
        stop ≤ (Utf8.encodeString sampleAccents).length ∧
        Utf8.decode? (Utf8.slice (Utf8.encodeString sampleAccents) start stop) =
          some "ü".toList := by
  obtain ⟨place, hplace, hnode⟩ : ∃ place ∈ sampleAccentsProgram.templatePlaces,
      place.node = sampleAccentsTemplate.relinked :=
    Node.exists_templatePlace (Node.mem_inOrder_self _ sampleAccentsTemplate)
  have hstands : StandsInCode sampleAccentsProgram
      (.identifier { span := Span.bytes 31 33, parent := .holder } "ü") :=
    .mustache hplace hnode (.tail _ (.head _)) (Node.mem_inOrder_self _ _)
  exact ⟨keepPlaces_sampleAccents, parse_sampleAccents, hstands,
    exists_bytes_of_standsInCode keepPlaces_sampleAccents parse_sampleAccents hstands rfl⟩

section Directives

variable {g : Grammars} {text : String} {scriptGrammar : Option String} {program : Node}

/-- In every quoted value of an HTML tree a quote of one byte stands before the content. -/
def HasByteQuotes (root : TreeNode) : Prop :=
  ∀ value ∈ root.nodes, isQuoted value = true → value.start + 1 ≤ value.stop ∧
    ∀ inner ∈ value.firstOfKinds? ["attribute_value"], inner.start = value.start + 1

instance (root : TreeNode) : Decidable (HasByteQuotes root) :=
  inferInstanceAs (Decidable (∀ value ∈ root.nodes, _))

/-- The written value of an attribute stands in the source where its content starts. -/
theorem exists_slice_of_writtenText {root value : TreeNode} {source : List UInt8}
    {written : List Char} (hlies : root.LiesBetween 0 source.length) (hquotes : HasByteQuotes root)
    (hvalue : value ∈ root.nodes) (h : writtenText source value = .ok written) :
    ∃ first last : Nat, contentStart value = first ∧ first ≤ source.length ∧
      decodeBytes (Utf8.slice source first last) = .ok written := by
  obtain ⟨-, hle, hstop⟩ := hlies value hvalue
  unfold writtenText at h
  unfold contentStart
  by_cases hquoted : isQuoted value = true
  · obtain ⟨hquote, hinner⟩ := hquotes value hvalue hquoted
    rw [if_pos hquoted] at h ⊢
    cases hfound : value.firstOfKinds? ["attribute_value"] with
    | none =>
      rw [hfound] at h
      refine ⟨value.start + 1, value.start + 1, rfl, hquote.trans hstop, ?_⟩
      rw [Utf8.slice, List.drop_of_length_le (by rw [List.length_take]; omega)]
      exact h
    | some inner =>
      rw [hfound] at h
      have hstart := hinner inner hfound
      exact ⟨inner.start, inner.stop, by rw [hstart]; rfl, by omega, h⟩
  · rw [if_neg hquoted] at h ⊢
    exact ⟨value.start, value.stop, rfl, hle.trans hstop, h⟩

/-- What is spelled in the end of a text is spelled in the text, counted from where the end
starts. -/
theorem throughout_isSpelledAt_of_suffix {part cs : List Char} {n : Node} {offset : Int}
    (hsuffix : part <:+ cs) (h : n.Throughout (Node.IsSpelledAt (Utf8.encode part) offset)) :
    n.Throughout (Node.IsSpelledAt (Utf8.encode cs)
      (offset - ((Utf8.encode cs).length - (Utf8.encode part).length))) := by
  obtain ⟨before, rfl⟩ := hsuffix
  have hpart : Utf8.slice (Utf8.encode (before ++ part)) (Utf8.encode before).length
      (Utf8.encode (before ++ part)).length = Utf8.encode part := by
    rw [Utf8.slice, List.take_length, Utf8.encode_append, List.drop_left]
  refine h.imp fun m hm => ?_
  rw [← hpart] at hm
  have hspelled := hm.of_slice (by rw [Utf8.encode_append, List.length_append]; omega)
  rwa [show (((Utf8.encode (before ++ part)).length : Int) - (Utf8.encode part).length) =
    (Utf8.encode before).length by rw [Utf8.encode_append, List.length_append]; omega]

/-- Names and literals of a directive are spelled in the parsed part of its value, counted from
where the value starts. If no character reference was replaced, this misses their places in the
source by what stands in the value before the parsed part. -/
theorem IsValueOf.exists_part {tree value : TreeNode} {name written read : List Char} {e : Node}
    (h : IsValueOf ctx tree value name written read e) (hg : ctx.grammars.KeepPlaces)
    {root : TreeNode} (hlies : root.LiesBetween 0 ctx.source.length) (hquotes : HasByteQuotes root)
    (htree : tree ∈ root.nodes) :
    ∃ part, parsedPart? name read = some part ∧
      e.Throughout (Node.IsSpelledAt (Utf8.encode part) (contentStart value)) ∧
      (read = written → e.Throughout (Node.IsSpelledAt ctx.source
        ((Utf8.encode part).length - (Utf8.encode read).length))) := by
  obtain ⟨part, hpart, hread⟩ := exists_isReadAs_of_directiveValue h.isExpression
  have hspelled := hread.throughout_isSpelledAt hg
  refine ⟨part, hpart, hspelled, fun heq => ?_⟩
  subst heq
  obtain ⟨first, last, hfirst, hle, hslice⟩ := exists_slice_of_writtenText hlies hquotes
    (TreeNode.mem_nodes_firstOfKinds? htree h.holdsValue) h.isWritten
  refine throughout_isSpelledAt_of_decodeBytes hslice hle ?_
  have hwhole := throughout_isSpelledAt_of_suffix (suffix_of_parsedPart? hpart) hspelled
  rwa [hfirst, sub_eq_add_neg, neg_sub] at hwhole

/-- A directive with an expression in the template of a component is made of a directive of the HTML
tree. -/
theorem exists_isValueOf_of_templatePlace {place : Place} {mark containerMark : Mark Node}
    {key e : Node} (h : parse g text scriptGrammar = .ok program)
    (hplace : place ∈ program.templatePlaces)
    (hdirective : place.node =
      .tagAttribute mark true key (some (.container containerMark (some e)))) :
    ∃ tree grammar attr value name written read found, g.parse Grammar.html text = .ok tree ∧
      attr ∈ tree.root.nodes ∧ mark.span = Span.bytes attr.start attr.stop ∧
      IsValueOf ⟨g, Utf8.encodeString text, grammar⟩ attr value name written read found ∧
      e = found.relinked := by
  obtain ⟨tree, grammar, n, htree, hmade, heq⟩ := exists_isMadeOf_of_templatePlace h hplace
  rw [hdirective] at heq
  cases hmade with
  | plain hplain =>
    rw [← Node.isPlain_relinked, ← heq] at hplain
    exact nomatch hplain
  | ofElement _ hnode =>
    obtain ⟨_, _, _, _, _, rfl, -⟩ := elementNode_eq_ok hnode
    exact nomatch heq
  | @ofAttribute attr hattr hnode =>
    obtain ⟨mark', directive, key', container, rfl, hspan, -, hvalue⟩ :=
      exists_of_attributeNode hnode
    obtain ⟨rfl, rfl, -, hcontainer⟩ := Node.tagAttribute.inj heq
    cases container with
    | none => exact nomatch hcontainer
    | some container =>
      obtain ⟨_, found, rfl, rfl⟩ :=
        Node.eq_container_of_relinked (Option.some.inj hcontainer).symm
      obtain ⟨value, name, written, read, hvalue⟩ := hvalue _ _ rfl rfl
      exact ⟨tree, grammar, attr, value, name, written, read, found, htree, hattr, hspan, hvalue,
        rfl⟩

/-- Positions in a directive are those of the part of its value that is parsed, placed as if it were
written where the value starts. If no character reference was replaced, they miss the source by
what stands in the value before that part; so they are exact unless the directive is `for`. -/
theorem exists_part_of_directive (hg : g.KeepPlaces)
    (hquotes : ∀ tree, g.parse Grammar.html text = .ok tree → HasByteQuotes tree.root)
    (h : parse g text scriptGrammar = .ok program) {place : Place}
    (hplace : place ∈ program.templatePlaces) {mark containerMark : Mark Node} {key e : Node}
    (hdirective : place.node =
      .tagAttribute mark true key (some (.container containerMark (some e)))) :
    ∃ tree grammar attr value name written read found part,
      g.parse Grammar.html text = .ok tree ∧ attr ∈ tree.root.nodes ∧
      mark.span = Span.bytes attr.start attr.stop ∧
      IsValueOf ⟨g, Utf8.encodeString text, grammar⟩ attr value name written read found ∧
      e = found.relinked ∧ parsedPart? name read = some part ∧
      e.Throughout (Node.IsSpelledAt (Utf8.encode part) (contentStart value)) ∧
      (read = written →
        e.Throughout (Node.IsSpelledAt (Utf8.encodeString text)
          ((Utf8.encode part).length - (Utf8.encode read).length)) ∧
        (String.ofList name ≠ "for" →
          e.Throughout (Node.IsSpelledAt (Utf8.encodeString text) 0))) := by
  obtain ⟨tree, grammar, attr, value, name, written, read, found, htree, hattr, hspan, hvalue,
    rfl⟩ := exists_isValueOf_of_templatePlace h hplace hdirective
  have hlies := hg.inText _ _ _ (Grammars.tree?_of_parse htree)
  obtain ⟨part, hpart, hspelled, hsource⟩ := hvalue.exists_part hg hlies (hquotes tree htree) hattr
  refine ⟨tree, grammar, attr, value, name, written, read, found, part, htree, hattr, hspan, hvalue,
    rfl, hpart, hspelled.relinkSpelled, fun heq => ⟨(hsource heq).relinkSpelled, fun hname => ?_⟩⟩
  rw [parsedPart?, if_neg hname] at hpart
  obtain rfl := Option.some.inj hpart
  rw [← Int.sub_self (Utf8.encode read).length]
  exact (hsource heq).relinkSpelled

end Directives

/-- The name that the directive of the component runs over is spelled at the bytes from 22 to 24 and
placed at those from 17 to 19, where the value of the directive starts. -/
theorem exists_part_sampleIteration :
    sampleAccentsGrammars.KeepPlaces ∧
      (∀ tree, sampleAccentsGrammars.parse Grammar.html sampleAccents = .ok tree →
        HasByteQuotes tree.root) ∧
      parse sampleAccentsGrammars sampleAccents none = .ok sampleAccentsProgram ∧
      ∃ place ∈ sampleAccentsProgram.templatePlaces, place.node = sampleIteration.relinked ∧
        ∃ tree grammar attr value name written read found part,
          sampleAccentsGrammars.parse Grammar.html sampleAccents = .ok tree ∧
          attr ∈ tree.root.nodes ∧ Span.bytes 10 25 = Span.bytes attr.start attr.stop ∧
          IsValueOf ⟨sampleAccentsGrammars, Utf8.encodeString sampleAccents, grammar⟩ attr value
            name written read found ∧
          sampleIterationValue.relinked = found.relinked ∧ parsedPart? name read = some part ∧
          sampleIterationValue.relinked.Throughout
            (Node.IsSpelledAt (Utf8.encode part) (contentStart value)) ∧
          (read = written →
            sampleIterationValue.relinked.Throughout
              (Node.IsSpelledAt (Utf8.encodeString sampleAccents)
                ((Utf8.encode part).length - (Utf8.encode read).length)) ∧
            (String.ofList name ≠ "for" → sampleIterationValue.relinked.Throughout
              (Node.IsSpelledAt (Utf8.encodeString sampleAccents) 0))) := by
  have hquotes : ∀ tree, sampleAccentsGrammars.parse Grammar.html sampleAccents = .ok tree →
      HasByteQuotes tree.root := fun tree htree => by
    obtain rfl := Except.ok.inj htree
    decide
  have hstep {n m k : Node} (hm : m ∈ n.held) (hk : k ∈ m.inOrder VisitorKeys.default) :
      k ∈ n.inOrder VisitorKeys.default :=
    Node.mem_inOrder_of_mem_heldNodes (Node.heldNodes_default n ▸ hm) hk
  have hbelow : sampleIteration ∈ sampleAccentsTemplate.inOrder VisitorKeys.default :=
    hstep (.head _) (hstep (.head _) (Node.mem_inOrder_self _ sampleIteration))
  obtain ⟨place, hplace, hnode⟩ : ∃ place ∈ sampleAccentsProgram.templatePlaces,
      place.node = sampleIteration.relinked := Node.exists_templatePlace hbelow
  exact ⟨keepPlaces_sampleAccents, hquotes, parse_sampleAccents, place, hplace, hnode,
    exists_part_of_directive keepPlaces_sampleAccents hquotes parse_sampleAccents hplace hnode⟩

end Component

end TranslationKeys
