import TranslationKeys.Proofs.Script.Conversion
import TranslationKeys.Proofs.Text.Decoding

/-!
# Positions in scripts

A name or a literal that a script tree becomes covers the bytes that spell it, counted from where
the script starts in its document. An expression is parsed between parentheses; as long as the
grammar keeps the nodes inside them apart from the parentheses, taking the one byte off again gives
positions in the expression itself.
-/

namespace TranslationKeys

/-- All nodes of a tree lie between two positions. -/
def TreeNode.LiesBetween (first last : Nat) (n : TreeNode) : Prop :=
  ∀ m ∈ n.nodes, first ≤ m.start ∧ m.start ≤ m.stop ∧ m.stop ≤ last

instance (first last : Nat) (n : TreeNode) : Decidable (n.LiesBetween first last) :=
  inferInstanceAs (Decidable (∀ m ∈ n.nodes, _))

/-- What the grammars make sure of for the places of nodes: those of a text lie in the text, and
those in the parentheses around an expression lie between the parentheses. -/
structure Grammars.KeepPlaces (g : Grammars) : Prop where
  /-- The nodes of a text lie in it. -/
  inText : ∀ grammar text tree, g.tree? grammar text = some tree →
    tree.root.LiesBetween 0 (Utf8.encodeString text).length
  /-- The nodes in the parentheses around an expression lie between them. -/
  inParentheses : ∀ grammar text tree wrapper,
    g.tree? grammar (Script.parenthesised text) = some tree → tree.hasError = false →
      Script.onlyExpression? tree.root = some wrapper →
        ∀ child ∈ wrapper.namedChildren,
          child.LiesBetween 1 ((Utf8.encodeString text).length + 1)

/-- The tree that a text is parsed to is the one that the grammar gives for it. -/
theorem Grammars.tree?_of_parse {g : Grammars} {grammar text : String} {tree : SyntaxTree}
    (h : g.parse grammar text = .ok tree) : g.tree? grammar text = some tree := by
  obtain ⟨-, -, h⟩ := bind_eq_ok_iff.1 h
  split at h
  · rename_i found hfound
    obtain rfl := Except.ok.inj h
    exact hfound
  · exact nomatch h

/-- Bytes are read as a text exactly if they are its encoding. -/
theorem decodeBytes_eq_ok_iff {bytes : List UInt8} {cs : List Char} :
    decodeBytes bytes = .ok cs ↔ bytes = Utf8.encode cs := by
  rw [← Utf8.decode?_eq_some_iff, decodeBytes]
  cases Utf8.decode? bytes <;> simp

/-- Whether a value is a text or a number: that of a string, of a number or of a pattern. -/
def Scalar.isWritten : Scalar → Bool
  | int _ | float _ | text _ => true
  | null | bool _ | other _ => false

namespace Node

/-- How a node is written: a name by itself, a literal that is a text or a number by its source. -/
def spelling? : Node → Option String
  | identifier _ name => some name
  | literal _ value raw => if value.isWritten then some raw else none
  | _ => none

/-- Counted from an offset, the span of a node covers those of the bytes that spell it. -/
def IsSpelledAt (bytes : List UInt8) (offset : Int) (n : Node) : Prop :=
  ∀ s, n.spelling? = some s → ∃ start stop : Nat, start ≤ stop ∧ stop ≤ bytes.length ∧
    n.mark.span = Span.bytes (start + offset) (stop + offset) ∧
    Utf8.decode? (Utf8.slice bytes start stop) = some s.toList

section Spelled

variable {bytes : List UInt8} {offset : Int} {n : Node}

/-- Nothing is asked of a node without a spelling. -/
theorem isSpelledAt_of_none (h : n.spelling? = none) : n.IsSpelledAt bytes offset :=
  fun _ hs => nomatch h.symm.trans hs

/-- A node that covers the same span and is written in the same way is spelled at the same
place. -/
theorem IsSpelledAt.congr {m : Node} (h : n.IsSpelledAt bytes offset)
    (hspelling : m.spelling? = n.spelling?) (hspan : m.mark.span = n.mark.span) :
    m.IsSpelledAt bytes offset := by
  intro s hs
  rw [hspan]
  exact h s (hspelling ▸ hs)

/-- Changing the parent link of a node leaves it where it is spelled. -/
theorem IsSpelledAt.withParent (h : n.IsSpelledAt bytes offset) (parent : Link Node) :
    (n.withMark { n.mark with parent := parent }).IsSpelledAt bytes offset :=
  h.congr (by cases n <;> rfl) (by cases n <;> rfl)

/-- Linking a node leaves it where it is spelled. -/
theorem IsSpelledAt.linkBelow (h : n.IsSpelledAt bytes offset) :
    (n.linkBelow VisitorKeys.default).IsSpelledAt bytes offset :=
  h.congr (by cases n <;> rfl) (by cases n <;> rfl)

/-- Linking a tree leaves its nodes where they are spelled. -/
theorem Throughout.linkSpelled (h : n.Throughout (IsSpelledAt bytes offset)) :
    (n.linkBelow VisitorKeys.default).Throughout (IsSpelledAt bytes offset) :=
  h.linkBelow (fun _ hm => hm.linkBelow) (fun _ hm => hm.withParent .holder)

/-- Changing the parent link of the root leaves the nodes of a tree where they are spelled. -/
theorem Throughout.spelledWithParent (h : n.Throughout (IsSpelledAt bytes offset))
    (parent : Link Node) : (n.withMark { n.mark with parent := parent }).Throughout
      (IsSpelledAt bytes offset) := by
  obtain ⟨hroot, hheld⟩ := throughout_iff.1 h
  refine throughout_iff.2 ⟨hroot.withParent parent, fun m hm => hheld m ?_⟩
  cases n <;> exact hm

/-- What is spelled in a part of some bytes is spelled in the whole, counted from where the part
starts. -/
theorem IsSpelledAt.of_slice {first last : Nat}
    (h : n.IsSpelledAt (Utf8.slice bytes first last) offset) (hfirst : first ≤ bytes.length) :
    n.IsSpelledAt bytes (offset - first) := by
  intro s hs
  obtain ⟨start, stop, hle, hstop, hspan, htext⟩ := h s hs
  have hlast : first + stop ≤ bytes.length := by
    rw [Utf8.slice, List.length_drop, List.length_take] at hstop
    omega
  refine ⟨first + start, first + stop, by omega, hlast, ?_, ?_⟩
  · rw [hspan]
    congr 1 <;> omega
  · rw [← Utf8.slice_slice hle hstop, htext]

end Spelled

end Node

namespace Script

section Leaves

variable {offset : Int}

/-- A name or a literal that a tree node becomes is written like the node and covers its span. -/
theorem text_of_spelling? {source : List UInt8} {n : TreeNode} {node : Node} {s : String}
    (hkind : n.kind ∈ leafKinds) (h : (convert source offset n).node = .ok (some node))
    (hs : node.spelling? = some s) :
    node.mark.span = spanOf offset n ∧ n.text source = .ok s.toList := by
  have hfound := assemble_of_node_convert h
  have hraw {text : List Char} (htext : n.text source = .ok text)
      (hs : some (String.ofList text) = some s) : n.text source = .ok s.toList := by
    rw [htext, ← Option.some.inj hs, String.toList_ofList]
  unfold assemble at hfound
  split at hfound
  · obtain ⟨text, htext, heq⟩ := bind_eq_ok_iff.1 hfound
    obtain rfl := Except.ok.inj heq
    exact ⟨rfl, hraw htext hs⟩
  · split at hfound
    case h_1 hcall => rw [hcall] at hkind; exact absurd hkind (by decide)
    case h_2 hmember => rw [hmember] at hkind; exact absurd hkind (by decide)
    case h_3 hsubscript => rw [hsubscript] at hkind; exact absurd hkind (by decide)
    case h_4 hparens => rw [hparens] at hkind; exact absurd hkind (by decide)
    case h_5 =>
      obtain ⟨value, -, hfound⟩ := bind_eq_ok_iff.1 hfound
      obtain ⟨text, htext, heq⟩ := bind_eq_ok_iff.1 hfound
      obtain rfl := Except.ok.inj heq
      exact ⟨rfl, hraw htext hs⟩
    case h_6 =>
      obtain ⟨text, htext, heq⟩ := bind_eq_ok_iff.1 hfound
      obtain rfl := Except.ok.inj heq
      simp only [Node.spelling?] at hs
      split at hs
      · exact ⟨rfl, hraw htext hs⟩
      · exact nomatch hs
    case h_7 =>
      obtain ⟨text, htext, heq⟩ := bind_eq_ok_iff.1 hfound
      obtain rfl := Except.ok.inj heq
      exact ⟨rfl, hraw htext hs⟩
    case h_8 htemplate => rw [htemplate] at hkind; exact absurd hkind (by decide)
    case h_9 =>
      obtain rfl := Except.ok.inj hfound
      exact nomatch hs
    case h_10 =>
      split at hfound
      · rename_i value hvalue
        obtain rfl := Except.ok.inj hfound
        unfold constant? at hvalue
        split at hvalue
        · obtain rfl := Option.some.inj hvalue
          exact nomatch hs
        · obtain rfl := Option.some.inj hvalue
          exact nomatch hs
        · obtain rfl := Option.some.inj hvalue
          exact nomatch hs
        · exact nomatch hvalue
      · obtain ⟨nodes, -, heq⟩ := bind_eq_ok_iff.1 hfound
        obtain rfl := Except.ok.inj heq
        exact nomatch hs

/-- Names and literals of a tree that lies between other bytes are spelled at their places. -/
theorem throughout_isSpelledAt_of_convert {bytes : List UInt8} (before after : List UInt8)
    (n : TreeNode) (hlies : n.LiesBetween before.length (before.length + bytes.length)) :
    (∀ node, (convert (before ++ bytes ++ after) offset n).node = .ok (some node) →
        node.Throughout (Node.IsSpelledAt bytes (before.length + offset))) ∧
      ∀ nodes, (convert (before ++ bytes ++ after) offset n).inner = .ok nodes →
        ∀ node ∈ nodes, node.Throughout (Node.IsSpelledAt bytes (before.length + offset)) := by
  refine throughout_of_convert (Node.isSpelledAt_of_none rfl) n fun m hm hbare node hnode => ?_
  have hbecomes := becomes_of_node_convert hnode
  cases hbecomes with
  | unwrapped hkind hinner => exact absurd hinner (hbare.inner_ne hkind)
  | call | member | subscript | template | generic => exact Node.isSpelledAt_of_none rfl
  | leaf hkind =>
    intro s hs
    obtain ⟨hspan, htext⟩ := text_of_spelling? hkind hnode hs
    obtain ⟨hfirst, hle, hlast⟩ := hlies m hm
    obtain ⟨start, hstart⟩ := Nat.exists_eq_add_of_le hfirst
    obtain ⟨stop, hstop⟩ := Nat.exists_eq_add_of_le (hfirst.trans hle)
    refine ⟨start, stop, by omega, by omega, ?_, ?_⟩
    · rw [hspan, spanOf]
      congr 1 <;> omega
    · rw [← Utf8.slice_append_append before after (by omega), ← hstart, ← hstop]
      exact Utf8.decode?_eq_some_iff.2 (decodeBytes_eq_ok_iff.1 htext)

end Leaves

section Parsed

variable {g : Grammars} {grammar text : String} {offset : Int}

/-- The encoding of a parenthesised text is that of the text between two bytes. -/
theorem encodeString_parenthesised (text : String) :
    Utf8.encodeString (parenthesised text) =
      Utf8.encode ['('] ++ Utf8.encodeString text ++ Utf8.encode [')'] := by
  simp only [parenthesised, Utf8.encodeString, String.toList_append, Utf8.encode_append]
  rfl

/-- The only expression of a tree is a pair of parentheses. -/
theorem kind_of_onlyExpression? {root wrapper : TreeNode}
    (h : onlyExpression? root = some wrapper) : wrapper.kind = "parenthesized_expression" := by
  unfold onlyExpression? at h
  split at h
  · split at h
    · split at h
      · split at h
        · rename_i hkind
          obtain rfl := Option.some.inj h
          exact eq_of_beq hkind
        · exact nomatch h
      · exact nomatch h
    · exact nomatch h
  · exact nomatch h

/-- Parentheses become the node between them, or a generic node over the nodes between them. -/
theorem throughout_of_parenthesized {P : Node → Prop} {source : List UInt8} {n : TreeNode}
    {node : Node} (hgeneric : ∀ mark tag children, P (.generic mark tag children))
    (hkind : n.kind = "parenthesized_expression")
    (hchildren : ∀ child ∈ n.namedChildren, ∀ node,
      (convert source offset child).node = .ok (some node) → node.Throughout P)
    (h : (convert source offset n).node = .ok (some node)) : node.Throughout P := by
  have hinner (nodes : List Node) (hnodes : (convert source offset n).inner = .ok nodes) :
      ∀ node ∈ nodes, node.Throughout P := by
    intro node hnode
    obtain ⟨child, hchild, hconvert⟩ :=
      exists_mem_left_of_forall₂ (inner_convert_eq_ok_iff.1 hnodes) hnode
    obtain ⟨hmem, hcode⟩ := List.mem_filter.1 hchild
    exact hchildren child (List.mem_filter.2 ⟨hmem, (Bool.and_eq_true_iff.1 hcode).1⟩) node hconvert
  have hbecomes := becomes_of_node_convert h
  cases hbecomes with
  | unwrapped _ hone => exact hinner _ hone _ (List.mem_singleton.2 rfl)
  | generic _ _ _ hmany => exact Node.throughout_iff.2 ⟨hgeneric _ _ _, hinner _ hmany⟩
  | leaf hleaf => rw [hkind] at hleaf; exact absurd hleaf (by decide)
  | call hcall => rw [hkind] at hcall; exact absurd hcall (by decide)
  | member hmember => rw [hkind] at hmember; exact absurd hmember (by decide)
  | subscript hsubscript => rw [hkind] at hsubscript; exact absurd hsubscript (by decide)
  | template htemplate => rw [hkind] at htemplate; exact absurd htemplate (by decide)

/-- The node of an expression is what the parentheses around it become. -/
theorem exists_of_expression {node : Node}
    (h : expression g grammar text offset = .ok (some node)) :
    ∃ tree wrapper inner, g.parse grammar (parenthesised text) = .ok tree ∧
      tree.hasError = false ∧ onlyExpression? tree.root = some wrapper ∧
      (convert (Utf8.encodeString (parenthesised text)) (offset - 1) wrapper).node =
        .ok (some inner) ∧
      node = inner.linkBelow VisitorKeys.default := by
  unfold expression at h
  split at h
  · exact nomatch Except.ok.inj h
  · obtain ⟨tree, htree, h⟩ := bind_eq_ok_iff.1 h
    split at h
    · exact nomatch Except.ok.inj h
    · rename_i herror
      split at h
      · exact nomatch Except.ok.inj h
      · rename_i wrapper hwrapper
        obtain ⟨found, hfound, heq⟩ := bind_eq_ok_iff.1 h
        obtain ⟨inner, rfl, hnode⟩ := Option.map_eq_some_iff.1 (Except.ok.inj heq)
        exact ⟨tree, wrapper, inner, htree, Bool.eq_false_of_not_eq_true herror, hwrapper, hfound,
          hnode.symm⟩

/-- The nodes of a list of statements are what the root of their tree holds. -/
theorem exists_of_statements {nodes : List Node}
    (h : statements g grammar text offset = .ok (some nodes)) :
    ∃ tree inner, g.parse grammar text = .ok tree ∧
      (convert (Utf8.encodeString text) offset tree.root).inner = .ok inner ∧
      nodes = inner.map (Node.linkBelow VisitorKeys.default) := by
  unfold statements at h
  obtain ⟨tree, htree, h⟩ := bind_eq_ok_iff.1 h
  split at h
  · exact nomatch Except.ok.inj h
  · obtain ⟨inner, hinner, heq⟩ := bind_eq_ok_iff.1 h
    exact ⟨tree, inner, htree, hinner, (Option.some.inj (Except.ok.inj heq)).symm⟩

/-- Names and literals of an expression are spelled at their places in it. -/
theorem throughout_isSpelledAt_of_expression (hg : g.KeepPlaces) {node : Node}
    (h : expression g grammar text offset = .ok (some node)) :
    node.Throughout (Node.IsSpelledAt (Utf8.encodeString text) offset) := by
  obtain ⟨tree, wrapper, inner, htree, herror, hwrapper, hinner, rfl⟩ := exists_of_expression h
  rw [encodeString_parenthesised] at hinner
  have hone : ((Utf8.encode ['(']).length : Int) + (offset - 1) = offset := by
    change (1 : Int) + (offset - 1) = offset
    omega
  refine (throughout_of_parenthesized (fun _ _ _ => Node.isSpelledAt_of_none rfl)
    (kind_of_onlyExpression? hwrapper) ?_ hinner).linkSpelled
  intro child hchild node hnode
  have hlies := hg.inParentheses grammar text tree wrapper (Grammars.tree?_of_parse htree) herror
    hwrapper child hchild
  rw [Nat.add_comm] at hlies
  rw [← hone]
  exact (throughout_isSpelledAt_of_convert (Utf8.encode ['(']) _ child hlies).1 node hnode

/-- Names and literals of what the root of a tree holds are spelled at their places. -/
theorem throughout_isSpelledAt_of_inner (hg : g.KeepPlaces) {tree : SyntaxTree}
    {nodes : List Node} (htree : g.parse grammar text = .ok tree)
    (h : (convert (Utf8.encodeString text) offset tree.root).inner = .ok nodes) :
    ∀ node ∈ nodes, node.Throughout (Node.IsSpelledAt (Utf8.encodeString text) offset) := by
  have hlies := hg.inText grammar text tree (Grammars.tree?_of_parse htree)
  have hsource : [] ++ Utf8.encodeString text ++ [] = Utf8.encodeString text := by simp
  rw [← hsource] at h
  simpa using (throughout_isSpelledAt_of_convert [] [] tree.root (by simpa using hlies)).2 nodes h

/-- Names and literals of a list of statements are spelled at their places in it. -/
theorem throughout_isSpelledAt_of_statements (hg : g.KeepPlaces) {nodes : List Node}
    (h : statements g grammar text offset = .ok (some nodes)) :
    ∀ node ∈ nodes, node.Throughout (Node.IsSpelledAt (Utf8.encodeString text) offset) := by
  obtain ⟨tree, inner, htree, hinner, rfl⟩ := exists_of_statements h
  rw [List.forall_mem_map]
  exact fun node hnode => (throughout_isSpelledAt_of_inner hg htree hinner node hnode).linkSpelled

/-- Names and literals of a script are spelled at their places in it. -/
theorem throughout_isSpelledAt_of_parse (hg : g.KeepPlaces) {program : Node}
    (h : parse g grammar text offset = .ok program) :
    ∀ node ∈ program.held,
      node.Throughout (Node.IsSpelledAt (Utf8.encodeString text) offset) := by
  obtain ⟨tree, htree, -⟩ := bind_eq_ok_iff.1 h
  rw [parse_of_tree offset htree] at h
  split at h
  · exact nomatch h
  · obtain ⟨body, hbody, rfl⟩ := map_eq_ok_iff.1 h
    have hspelled := throughout_isSpelledAt_of_inner hg htree hbody
    have hprogram : (Node.program { span := spanOf offset tree.root } body none).Throughout
        (Node.IsSpelledAt (Utf8.encodeString text) offset) :=
      Node.throughout_iff.2 ⟨Node.isSpelledAt_of_none rfl, hspelled⟩
    exact (Node.throughout_iff.1 hprogram.linkSpelled).2

end Parsed

end Script

end TranslationKeys
