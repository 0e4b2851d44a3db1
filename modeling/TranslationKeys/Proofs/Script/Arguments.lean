import TranslationKeys.Proofs.Callees

/-!
# What the first argument of a translator call contributes

A call that is made by the name of a translator contributes the key of the literal that its first
argument stands for, parentheses aside. Every such call of a script that is parsed is met in the
walk through its program.
-/

namespace TranslationKeys.Script

/-- A call is made by the name of a translator, and a tree node is its first argument, parentheses
aside. -/
structure Translates (source : List UInt8) (call argument : TreeNode) : Prop where
  /-- The call is made by the name of a translator. -/
  called : ∃ name ∈ translatorNames, CallsBy source call name
  /-- The first argument stands for the tree node. -/
  first : ∃ first rest, argumentTrees call = first :: rest ∧ Encloses first argument

section Conversion

variable {source : List UInt8} {offset : Int} {n inner call argument : TreeNode} {made : Node}

/-- Parentheses around one tree node become what the tree node becomes. -/
theorem node_convert_of_encloses (h : Encloses n inner) (hcode : isCode n = true)
    (hmade : (convert source offset inner).node = .ok (some made)) :
    (convert source offset n).node = .ok (some made) := by
  induction h with
  | innermost => exact hmade
  | @parentheses n only inner hkind honly _ ih =>
    have hmem : only ∈ codeChildren n := honly ▸ List.mem_cons_self
    have hinner : (convert source offset n).inner = .ok [made] :=
      inner_convert_eq_ok_iff.2 (honly ▸ .cons (ih (List.mem_filter.1 hmem).2 hmade) .nil)
    rw [inner_convert] at hinner
    rw [node_convert, if_pos hcode]
    simp only [assemble, hkind]
    rw [hinner]
    rfl

/-- The function of a call by a name stands in the tree. -/
theorem CallsBy.exists_function {name : String} (h : CallsBy source call name) :
    ∃ function, call.child? "function" = some function ∧ isCode function = true := by
  cases h with
  | name hstands | property hstands | subscript hstands =>
    obtain ⟨function, hfunction, hcode, -⟩ := hstands
    exact ⟨function, hfunction, hcode⟩

/-- What a call by the name of a translator contributes is the key of what its first argument
becomes. -/
theorem key?_of_isCallOf {p : Place} (hcall : IsCallOf source offset call p.node)
    (h : Translates source call argument) :
    ∃ made, (convert source offset argument).node = .ok (some made) ∧
      p.key? = made.literalKey? := by
  obtain ⟨node, above⟩ := p
  obtain ⟨mark, callee, arguments, optional, rfl, -, hcallee, harguments⟩ := hcall
  obtain ⟨name, hname, hcalls⟩ := h.called
  obtain ⟨first, rest, htrees, hencloses⟩ := h.first
  rw [htrees] at harguments
  obtain ⟨argument', arguments, ⟨inner, made, hinner, hmade, -, rfl⟩, -, rfl⟩ :=
    List.forall₂_cons_left_iff.1 harguments
  obtain rfl := hencloses.unique hinner
  refine ⟨made, hmade, ?_⟩
  have hcalled : callee.calledName? = some name := by
    obtain ⟨function, hfunction, hcode⟩ := CallsBy.exists_function hcalls
    obtain ⟨inner, made, hinner, hmade, -, rfl⟩ := hcallee function hfunction
    have hoperand : IsOperand source offset (call.child? "function") made :=
      hfunction ▸ .code (node_convert_of_encloses hinner hcode hmade)
    rw [Node.calledName?_relinked]
    exact (calledName?_eq_some_iff hoperand).2 hcalls
  have hkey := (Place.isDecidedBy_calledName? mark callee (made.relinked :: arguments) optional
    above).1 ⟨name, hname, hcalled⟩
  rw [hkey]
  exact Node.literalKey?_relinked made

end Conversion

section Literals

variable {source : List UInt8} {offset : Int} {n : TreeNode} {made : Node} {raw : List Char}

/-- A number becomes a literal with the number as its value. -/
theorem literalKey?_of_number (hkind : n.kind = "number") (htext : n.text source = .ok raw)
    (hmade : (convert source offset n).node = .ok (some made)) :
    made.literalKey? = (Node.literal {} (NumberLiteral.value raw) "").literalKey? := by
  have hassemble := assemble_of_node_convert hmade
  simp only [assemble, hkind, htext] at hassemble
  obtain rfl := Except.ok.inj hassemble
  rfl

/-- A string becomes a literal with the content of the string as its value. -/
theorem literalKey?_of_string {content : Text} (hkind : n.kind = "string")
    (hcontent : stringContent source n = .ok content)
    (hmade : (convert source offset n).node = .ok (some made)) :
    made.literalKey? = .ok (if content.isEmpty then none else some content) := by
  have hassemble := assemble_of_node_convert hmade
  simp only [assemble, hkind, hcontent] at hassemble
  obtain ⟨value, hvalue, hassemble⟩ := bind_eq_ok_iff.1 hassemble
  obtain rfl := Except.ok.inj hvalue
  obtain ⟨raw, -, hraw⟩ := bind_eq_ok_iff.1 hassemble
  obtain rfl := Except.ok.inj hraw
  cases content <;> rfl

end Literals

/-- A script whose tree is known is parsed: the tree is one that a grammar of scripts can give, it
is aligned with the text, and no escape in it overflows. -/
structure IsParsed (g : Grammars) (grammar text : String) (tree : SyntaxTree) : Prop where
  /-- The grammar gives the tree. -/
  tree_eq : g.parse grammar text = .ok tree
  /-- There are no syntax errors. -/
  hasError_eq : tree.hasError = false
  /-- The tree is one of a script. -/
  isScriptTree : IsScriptTree tree.root
  /-- The places of its nodes lie between characters of the text. -/
  isAligned : tree.root.IsAligned text.toList
  /-- No escape names a number that is too large to be told that it is no code point. -/
  not_holdsOverflow : ¬ HoldsOverflow (Utf8.encodeString text) tree.root

/-- A script is parsed, and a call in it passes a tree node to a translator. -/
structure Passes (g : Grammars) (grammar text : String) (tree : SyntaxTree)
    (call argument : TreeNode) : Prop where
  /-- The script is parsed. -/
  isParsed : IsParsed g grammar text tree
  /-- The call is one of those that a walk through the program meets. -/
  mem_keptCalls : call ∈ keptCalls tree.root
  /-- The call is one of a translator, and the tree node is its first argument. -/
  translates : Translates (Utf8.encodeString text) call argument

/-- A script is parsed, and the call of a tree node, met in the walk through the program,
contributes this key, or none. -/
def Contributes (g : Grammars) (grammar text : String) (offset : Int) (call : TreeNode)
    (key : Option Text) : Prop :=
  ∃ program, parse g grammar text offset = .ok program ∧
    ∃ p ∈ (Place.root program).preorder VisitorKeys.default,
      IsCallOf (Utf8.encodeString text) offset call p.node ∧ p.key? = .ok key

section Walking

variable {g : Grammars} {grammar text : String} {tree : SyntaxTree} {call argument : TreeNode}

/-- A script whose tree is known is parsed, and each call of the tree is met in the walk through its
program. -/
theorem IsParsed.exists_place (h : IsParsed g grammar text tree) (offset : Int)
    (hcall : call ∈ keptCalls tree.root) :
    ∃ program, parse g grammar text offset = .ok program ∧
      ∃ p ∈ (Place.root program).preorder VisitorKeys.default,
        IsCallOf (Utf8.encodeString text) offset call p.node := by
  obtain ⟨hkind, hregular⟩ := h.isScriptTree
  obtain ⟨body, hbody⟩ := (failsOnlyBy_overflow h.isAligned).2.exists_ok
    (x := (convert (Utf8.encodeString text) offset tree.root).inner)
    fun e he => h.not_holdsOverflow he.2
  have hparse := parse_of_tree offset h.tree_eq
  rw [h.hasError_eq, hbody] at hparse
  refine ⟨_, hparse, ?_⟩
  have hcalls := keptCalls_eq_codeChildren (n := tree.root) (by rw [hkind]; rfl) fun child hchild =>
    hregular child (TreeNode.mem_nodes_of_mem_children hchild child.mem_nodes_self)
  have hmatch := (callsMatch_of_convert tree.root hregular).2 body hbody
  rw [CallsMatch, ← hcalls, ← List.forall₂_map_right_iff,
    ← calls_linkBelow_program { span := spanOf offset tree.root }] at hmatch
  obtain ⟨node, hnode, hof⟩ := exists_mem_right_of_forall₂ hmatch hcall
  have hmet := List.mem_of_mem_filter hnode
  have hwalk (program : Node) :=
    Place.map_node_preorder VisitorKeys.onlyDown_default (.root program)
  obtain ⟨p, hp, rfl⟩ := List.mem_map.1 ((hwalk _).symm ▸ hmet)
  exact ⟨p, hp, hof⟩

/-- A call of a translator contributes the key of what its first argument becomes. -/
theorem Passes.contributes (h : Passes g grammar text tree call argument) (offset : Int)
    {key : Option Text}
    (hkey : ∀ made, (convert (Utf8.encodeString text) offset argument).node = .ok (some made) →
      made.literalKey? = .ok key) :
    Contributes g grammar text offset call key := by
  obtain ⟨program, hprogram, p, hp, hof⟩ := h.isParsed.exists_place offset h.mem_keptCalls
  obtain ⟨made, hmade, hp_key⟩ := key?_of_isCallOf hof h.translates
  exact ⟨program, hprogram, p, hp, hof, hp_key.trans (hkey made hmade)⟩

end Walking

/-- No escape of a tree overflows if all of them are decoded. -/
theorem not_holdsOverflow_of_isOk {source : List UInt8} {root : TreeNode}
    (h : ∀ n ∈ root.nodes, n.kind = "escape_sequence" → (partValue source n).isOk = true) :
    ¬ HoldsOverflow source root := by
  intro ⟨n, hn, hkind, sequence, htext, hoverflows⟩
  have herror := Escape.decode_eq_error_iff.2 ⟨rfl, hoverflows⟩
  have hok := h n hn hkind
  simp only [partValue, htext, hkind] at hok
  change (Escape.decode sequence).isOk = true at hok
  rw [herror] at hok
  exact nomatch hok

/-- The call of `t` with one argument, up to a place. -/
def callOf (stop : Nat) (argument : TreeNode) : TreeNode :=
  .mk "call_expression" 0 stop true
    [.mk "identifier" 0 1 true [] [], .mk "arguments" 1 stop true [argument] []]
    [("function", 0), ("arguments", 1)]

/-- The tree of a script that consists of the call. -/
def treeOfCall (stop : Nat) (argument : TreeNode) : SyntaxTree where
  root := .mk "program" 0 stop true
    [.mk "expression_statement" 0 stop true [callOf stop argument] []] []
  hasError := false

/-- A script that consists of a call of `t` passes the argument of the call. -/
theorem passes_callOf {text : String} {stop : Nat} {argument : TreeNode}
    (hscript : IsScriptTree (treeOfCall stop argument).root)
    (haligned : (treeOfCall stop argument).root.IsAligned text.toList)
    (hescapes : ∀ n ∈ (treeOfCall stop argument).root.nodes, n.kind = "escape_sequence" →
      (partValue (Utf8.encodeString text) n).isOk = true)
    (hname : (TreeNode.mk "identifier" 0 1 true [] []).text (Utf8.encodeString text) = .ok ['t'])
    (hcode : isCode argument = true) (hkind : argument.kind ≠ "parenthesized_expression") :
    Passes (grammarsOf (treeOfCall stop argument)) Grammar.javascript text
      (treeOfCall stop argument) (callOf stop argument) argument := by
  have htrees : argumentTrees (callOf stop argument) = [argument].filter isCode := rfl
  have htranslates : Translates (Utf8.encodeString text) (callOf stop argument) argument :=
    { called := ⟨"t", by decide, .name ⟨_, rfl, rfl, .innermost (isBare_of_ne (by decide))⟩
        ⟨by decide, hname⟩⟩
      first := ⟨argument, [], htrees.trans (List.filter_cons_of_pos hcode),
        .innermost (isBare_of_ne hkind)⟩ }
  exact ⟨⟨rfl, rfl, hscript, haligned, not_holdsOverflow_of_isOk hescapes⟩, List.mem_cons_self,
    htranslates⟩

end TranslationKeys.Script
