import TranslationKeys.Proofs.Node.Origins
import TranslationKeys.Proofs.Script.Positions

/-!
# What makes a call a translator call

A call contributes the key of its first argument exactly if it is made by the name of a translator.
There are three ways to call by a name: the name itself, a property with that name, and a subscript
that is a variable with that name. The last is not told apart from the second, so a call through a
subscript is taken for a translator call if, and only if, its index is such a variable.

Calls are followed back to where they come from: in a script to a call of its tree, and in a tree
that was read to a mapping that is reached from the root.
-/

namespace TranslationKeys

namespace Node

/-- The key that the first argument of a call contributes. -/
def firstArgumentKey? : Node → Except Failure (Option Text)
  | call _ _ (first :: _) _ => first.literalKey?
  | _ => .ok none

/-- A node that is called by a name is an identifier, or an access by an identifier. -/
theorem calledName?_eq_some_iff {n : Node} {name : String} :
    n.calledName? = some name ↔ (∃ mark, n = .identifier mark name) ∨
      ∃ mark object property computed optional,
        n = .member mark object (.identifier property name) computed optional := by
  constructor
  · intro h
    unfold calledName? at h
    split at h
    · obtain rfl := Option.some.inj h
      exact .inr ⟨_, _, _, _, _, rfl⟩
    · obtain rfl := Option.some.inj h
      exact .inl ⟨_, rfl⟩
    · exact nomatch h
  · intro h
    obtain ⟨mark, rfl⟩ | ⟨mark, object, property, computed, optional, rfl⟩ := h
    · rfl
    · rfl

end Node

namespace Place

/-- A call contributes the key of its first argument if it is made by the name of a translator, and
nothing otherwise. -/
def IsDecidedBy (p : Place) (calledBy : String → Prop) : Prop :=
  ((∃ name ∈ translatorNames, calledBy name) → p.key? = p.node.firstArgumentKey?) ∧
    ((¬ ∃ name ∈ translatorNames, calledBy name) → p.key? = .ok none)

/-- What a call contributes is decided by the name that its callee is called by. -/
theorem isDecidedBy_calledName? (mark : Mark Node) (callee : Node) (arguments : List Node)
    (optional : Bool) (above : List Node) :
    IsDecidedBy ⟨.call mark callee arguments optional, above⟩ (callee.calledName? = some ·) := by
  refine ⟨fun ⟨name, hname, hcalled⟩ => ?_, fun hnone => ?_⟩
  · cases arguments with
    | nil =>
      change callKey? callee [] = .ok none
      simp [callKey?]
    | cons first rest => exact callKey?_cons hcalled hname
  · change callKey? callee arguments = .ok none
    unfold callKey?
    split
    · rename_i name first rest hcalled
      refine if_neg fun hname => hnone ⟨name, List.contains_iff_mem.1 hname, hcalled⟩
    · rfl

/-- What a call with its links attached contributes is decided by the name that the callee is called
by before. -/
theorem isDecidedBy_of_calledName? {callee : Node} {calledBy : String → Prop}
    (h : ∀ name, callee.calledName? = some name ↔ calledBy name) (mark : Mark Node)
    (arguments : List Node) (optional : Bool) (above : List Node) :
    IsDecidedBy ⟨.call mark callee.relinked arguments optional, above⟩ calledBy := by
  have hcalled : (callee.relinked.calledName? = some ·) = calledBy := by
    funext name
    rw [Node.calledName?_relinked, propext (h name)]
  rw [← hcalled]
  exact isDecidedBy_calledName? mark callee.relinked arguments optional above

end Place

/-! ### Calls of scripts -/

namespace Script

/-- What stands in a field of a tree node once single parentheses are taken off. -/
def StandsIn (child : Option TreeNode) (inner : TreeNode) : Prop :=
  ∃ n ∈ child, isCode n = true ∧ Encloses n inner

/-- A tree node is a name that is spelled so. -/
def IsName (source : List UInt8) (n : TreeNode) (name : String) : Prop :=
  n.kind ∈ identifierKinds ∧ n.text source = .ok name.toList

/-- The ways to call by a name, parentheses aside. -/
inductive CallsBy (source : List UInt8) (call : TreeNode) (name : String) : Prop where
  /-- The name itself is called. -/
  | name {callee : TreeNode} (hcallee : StandsIn (call.child? "function") callee)
      (hname : IsName source callee name)
  /-- A property with the name is called. -/
  | property {callee property : TreeNode} (hcallee : StandsIn (call.child? "function") callee)
      (hkind : callee.kind = "member_expression")
      (hproperty : StandsIn (callee.child? "property") property)
      (hname : IsName source property name)
  /-- What is called is found by a subscript that is a variable with the name. -/
  | subscript {callee index : TreeNode} (hcallee : StandsIn (call.child? "function") callee)
      (hkind : callee.kind = "subscript_expression")
      (hindex : StandsIn (callee.child? "index") index) (hname : IsName source index name)

variable {source : List UInt8} {offset : Int}

/-- What a tree node encloses is bare. -/
theorem Encloses.isBare {n inner : TreeNode} (h : Encloses n inner) : IsBare inner := by
  induction h with
  | innermost hbare => exact hbare
  | parentheses _ _ _ ih => exact ih

/-- A tree node encloses one tree node only. -/
theorem Encloses.unique {n first second : TreeNode} (hfirst : Encloses n first)
    (hsecond : Encloses n second) : first = second := by
  induction hfirst with
  | innermost hbare =>
    cases hsecond with
    | innermost => rfl
    | parentheses hkind honly => exact absurd honly (hbare hkind _)
  | parentheses hkind honly _ ih =>
    cases hsecond with
    | innermost hbare => exact absurd honly (hbare hkind _)
    | parentheses _ honly' hinner =>
      obtain rfl := List.singleton_inj.1 (honly.symm.trans honly')
      exact ih hinner

/-- An operand is what the tree node that stands in its field becomes. -/
theorem IsOperand.node_convert {child : Option TreeNode} {inner : TreeNode} {node : Node}
    (h : IsOperand source offset child node) (hinner : StandsIn child inner) :
    (convert source offset inner).node = .ok (some node) := by
  obtain ⟨n, hn, hcode, hencloses⟩ := hinner
  cases h with
  | code hnode =>
    obtain rfl := Option.some.inj hn
    obtain ⟨found, hfound, hmade, -⟩ := exists_encloses_of_node_convert hnode
    rwa [hencloses.unique hfound]
  | missing hnone => exact absurd hcode (by rw [hnone n hn]; decide)

/-- Something stands in the field of an operand that is no placeholder. -/
theorem IsOperand.exists_standsIn {child : Option TreeNode} {node : Node}
    (h : IsOperand source offset child node) (hnode : node ≠ Script.missing) :
    ∃ inner, StandsIn child inner ∧ IsBare inner ∧
      (convert source offset inner).node = .ok (some node) := by
  cases h with
  | @code n _ hconvert =>
    obtain ⟨inner, hinner, hmade, -⟩ := exists_encloses_of_node_convert hconvert
    exact ⟨inner, ⟨n, rfl, isCode_of_node_convert hconvert, hinner⟩, hinner.isBare, hmade⟩
  | missing => exact absurd rfl hnode

/-- A name becomes an identifier with that name. -/
theorem IsName.exists_eq_identifier {n : TreeNode} {name : String} {node : Node}
    (h : IsName source n name) (hnode : (convert source offset n).node = .ok (some node)) :
    ∃ mark, node = .identifier mark name := by
  have hfound := assemble_of_node_convert hnode
  unfold assemble at hfound
  rw [if_pos (List.contains_iff_mem.2 h.1), h.2] at hfound
  rw [← Except.ok.inj hfound, String.ofList_toList]
  exact ⟨_, rfl⟩

/-- Only names become identifiers. -/
theorem isName_of_node_convert {n : TreeNode} {mark : Mark Node} {name : String} (hbare : IsBare n)
    (h : (convert source offset n).node = .ok (some (.identifier mark name))) :
    IsName source n name := by
  have hbecomes := becomes_of_node_convert h
  cases hbecomes with
  | unwrapped hkind hinner => exact absurd hinner (hbare.inner_ne hkind)
  | leaf hkind =>
    refine ⟨(List.mem_append.1 hkind).resolve_right fun hliteral => ?_,
      (text_of_spelling? hkind h rfl).2⟩
    have hdisjoint : ∀ kind ∈ ["string", "number", "regex", "this", "true", "false", "null"],
        ¬ identifierKinds.contains kind = true := by decide
    have hfound := assemble_of_node_convert h
    unfold assemble at hfound
    rw [if_neg (hdisjoint n.kind hliteral)] at hfound
    simp only [List.mem_cons, List.not_mem_nil, or_false] at hliteral
    rcases hliteral with hkind | hkind | hkind | hkind | hkind | hkind | hkind <;>
      simp [hkind, constant?, bind_eq_ok_iff, pure, Except.pure] at hfound

/-- The name that the callee of a call is called by, in terms of the tree. -/
theorem calledName?_eq_some_iff {call : TreeNode} {callee : Node} {name : String}
    (h : IsOperand source offset (call.child? "function") callee) :
    callee.calledName? = some name ↔ CallsBy source call name := by
  rw [Node.calledName?_eq_some_iff]
  constructor
  · intro hcalled
    obtain ⟨mark, rfl⟩ | ⟨mark, object, property, computed, optional, rfl⟩ := hcalled
    · obtain ⟨inner, hinner, hbare, hnode⟩ := h.exists_standsIn (by simp [missing])
      exact .name hinner (isName_of_node_convert hbare hnode)
    · obtain ⟨inner, hinner, hbare, hnode⟩ := h.exists_standsIn (by simp [missing])
      have hbecomes := becomes_of_node_convert hnode
      cases hbecomes with
      | leaf _ hheld => exact absurd hheld (List.cons_ne_nil _ _)
      | unwrapped hkind hone => exact absurd hone (hbare.inner_ne hkind)
      | member hkind _ hproperty =>
        obtain ⟨key, hkey, hbare, hnode⟩ := hproperty.exists_standsIn (by simp [missing])
        exact .property hinner hkind hkey (isName_of_node_convert hbare hnode)
      | subscript hkind _ hindex =>
        obtain ⟨key, hkey, hbare, hnode⟩ := hindex.exists_standsIn (by simp [missing])
        exact .subscript hinner hkind hkey (isName_of_node_convert hbare hnode)
  · intro hcalls
    have haccess {inner : TreeNode} {field : String} (computed : Bool)
        (hinner : StandsIn (call.child? "function") inner)
        (hassemble : ∀ parts, assemble source offset inner parts =
          access { span := spanOf offset inner } inner parts field computed)
        {key : TreeNode} (hkey : StandsIn (inner.child? field) key)
        (hname : IsName source key name) :
        ∃ mark object property computed optional,
          callee = .member mark object (.identifier property name) computed optional := by
      have hnode := assemble_of_node_convert (h.node_convert hinner)
      rw [hassemble] at hnode
      obtain ⟨object, property, optional, rfl, -, hproperty⟩ := exists_of_access hnode
      obtain ⟨mark, rfl⟩ := hname.exists_eq_identifier (hproperty.node_convert hkey)
      exact ⟨_, _, _, _, _, rfl⟩
    cases hcalls with
    | name hinner hname => exact .inl (hname.exists_eq_identifier (h.node_convert hinner))
    | property hinner hkind hkey hname =>
      exact .inr <| haccess false hinner
        (fun parts => by simp [assemble, hkind, identifierKinds]) hkey hname
    | subscript hinner hkind hkey hname =>
      exact .inr <| haccess true hinner
        (fun parts => by simp [assemble, hkind, identifierKinds]) hkey hname

/-- Every call among the nodes that the children of a tree node become covers a call of the tree,
and what is called is the operand of that call. -/
theorem exists_call_of_inner {root : TreeNode} {nodes : List Node}
    (h : (convert source offset root).inner = .ok nodes) :
    ∀ node ∈ nodes, node.Throughout fun m => m.isCall = true →
      ∃ call ∈ root.nodes, call.kind = "call_expression" ∧ ∃ callee arguments optional,
        m = .call { span := spanOf offset call } callee arguments optional ∧
          IsOperand source offset (call.child? "function") callee := by
  refine (throughout_of_convert (fun hcall => nomatch hcall) root ?_).2 nodes h
  intro call hmem hbare m hnode hcall
  have hbecomes := becomes_of_node_convert hnode
  cases hbecomes with
  | call hkind _ hcallee => exact ⟨call, hmem, hkind, _, _, _, rfl, hcallee⟩
  | leaf _ _ _ hleaf => exact absurd hcall (by rw [hleaf]; decide)
  | unwrapped hkind hinner => exact absurd hinner (hbare.inner_ne hkind)
  | member | subscript | template | generic => exact nomatch hcall

/-- Every call that a walk through the program of a script meets comes from a call of its tree, and
what it contributes is decided by the name that the call is made by. -/
theorem exists_call_of_parse {g : Grammars} {grammar text : String} {program : Node}
    (h : parse g grammar text offset = .ok program) {p : Place}
    (hp : p ∈ (Place.root program).preorder VisitorKeys.default) (hcall : p.node.isCall = true) :
    ∃ tree, g.parse grammar text = .ok tree ∧ ∃ call ∈ tree.root.nodes,
      call.kind = "call_expression" ∧ p.node.mark.span = spanOf offset call ∧
        p.IsDecidedBy (CallsBy (Utf8.encodeString text) call) := by
  obtain ⟨tree, htree, -⟩ := bind_eq_ok_iff.1 h
  rw [parse_of_tree offset htree] at h
  split at h
  · exact nomatch h
  · obtain ⟨body, hbody, rfl⟩ := map_eq_ok_iff.1 h
    have hnode := List.mem_map_of_mem (f := Place.node) hp
    rw [Place.map_node_preorder VisitorKeys.onlyDown_default] at hnode
    have hmem : p.node ∈ Node.calls _ := List.mem_filter.2 ⟨hnode, hcall⟩
    rw [Place.root, calls_linkBelow_program] at hmem
    obtain ⟨m, hm, hrelinked⟩ := List.mem_map.1 hmem
    obtain ⟨node, hbelow, hm⟩ := List.mem_flatMap.1 hm
    obtain ⟨hm, hmcall⟩ := List.mem_filter.1 hm
    obtain ⟨call, hcallmem, hkind, callee, arguments, optional, rfl, hcallee⟩ :=
      exists_call_of_inner hbody node hbelow m hm hmcall
    obtain ⟨_, above⟩ := p
    obtain rfl := hrelinked
    exact ⟨tree, htree, call, hcallmem, hkind, rfl,
      Place.isDecidedBy_of_calledName? (fun name => calledName?_eq_some_iff hcallee) _ _ optional
        above⟩

end Script

/-! ### Calls of trees that are read -/

namespace Mapping

variable {m child : Mapping} {key kind name : String} {n c : Node}

/-- The ways to call by a name. -/
inductive CallsBy (m : Mapping) (name : String) : Prop where
  /-- The name itself is called. -/
  | name {callee : Mapping} (hcallee : m.HoldsAt "callee" callee "Identifier")
      (hname : (Payload.ofEntries callee).text "name" = .ok name)
  /-- A property with the name is called. -/
  | property {callee property : Mapping} (hcallee : m.HoldsAt "callee" callee "MemberExpression")
      (hdotted : (Payload.ofEntries callee).flag "computed" = false)
      (hproperty : callee.HoldsAt "property" property "Identifier")
      (hname : (Payload.ofEntries property).text "name" = .ok name)
  /-- What is called is found by a subscript that is a variable with the name. -/
  | subscript {callee index : Mapping} (hcallee : m.HoldsAt "callee" callee "MemberExpression")
      (hcomputed : (Payload.ofEntries callee).flag "computed" = true)
      (hindex : callee.HoldsAt "property" index "Identifier")
      (hname : (Payload.ofEntries index).text "name" = .ok name)

/-- A mapping in a field that is read as an identifier is one with that name. -/
theorem HoldsAt.text_of_identifier {mark : Mark Node} (h : m.HoldsAt key child kind)
    (hc : Node.ofEntries child = .ok (.identifier mark name)) :
    m.HoldsAt key child "Identifier" ∧ (Payload.ofEntries child).text "name" = .ok name := by
  obtain rfl : kind = "Identifier" := h.2.eq_of_isOfKind hc rfl
  have hbuilds := builds_ofEntries hc
  cases hbuilds with
  | identifier _ hname => exact ⟨h, hname⟩

/-- A mapping in a field that is an identifier is read as one with its name. -/
theorem HoldsAt.exists_eq_identifier (h : m.HoldsAt key child "Identifier")
    (hname : (Payload.ofEntries child).text "name" = .ok name)
    (hc : (Payload.ofEntries m).expectedNode key = .ok c) : ∃ mark, c = .identifier mark name := by
  have hread := h.ofEntries_eq hc
  have hof := isOfKind_ofEntries hread h.2.kind_eq (by decide)
  have hbuilds := builds_ofEntries hread
  cases hbuilds with
  | identifier _ htext =>
    obtain rfl := Except.ok.inj (hname.symm.trans htext)
    exact ⟨_, rfl⟩
  | _ => exact nomatch hof

/-- The name that the callee of a call is called by, in terms of its mapping. -/
theorem calledName?_eq_some_iff (hcallee : (Payload.ofEntries m).expectedNode "callee" = .ok c) :
    c.calledName? = some name ↔ m.CallsBy name := by
  rw [Node.calledName?_eq_some_iff]
  constructor
  · intro hcalled
    obtain ⟨mark, rfl⟩ | ⟨mark, object, property, computed, optional, rfl⟩ := hcalled
    · obtain heq | ⟨callee, kind, hholds, hread⟩ := exists_holdsAt_of_expectedNode hcallee
      · exact nomatch heq
      · obtain ⟨hholds, hname⟩ := hholds.text_of_identifier hread
        exact .name hholds hname
    · obtain heq | ⟨callee, kind, hholds, hread⟩ := exists_holdsAt_of_expectedNode hcallee
      · exact nomatch heq
      · obtain rfl : kind = "MemberExpression" := hholds.2.eq_of_isOfKind hread rfl
        have hbuilds := builds_ofEntries hread
        cases hbuilds with
        | member _ _ hproperty =>
          obtain heq | ⟨key, kind, hkey, hread⟩ := exists_holdsAt_of_expectedNode hproperty
          · exact nomatch heq
          · obtain ⟨hkey, hname⟩ := hkey.text_of_identifier hread
            cases hcomputed : (Payload.ofEntries callee).flag "computed" with
            | false => exact .property hholds hcomputed hkey hname
            | true => exact .subscript hholds hcomputed hkey hname
  · intro hcalls
    have haccess {callee key : Mapping} (hholds : m.HoldsAt "callee" callee "MemberExpression")
        (hkey : callee.HoldsAt "property" key "Identifier")
        (hname : (Payload.ofEntries key).text "name" = .ok name) :
        ∃ mark object property computed optional,
          c = .member mark object (.identifier property name) computed optional := by
      have hread := hholds.ofEntries_eq hcallee
      have hof := isOfKind_ofEntries hread hholds.2.kind_eq (by decide)
      have hbuilds := builds_ofEntries hread
      cases hbuilds with
      | member _ _ hproperty =>
        obtain ⟨mark, rfl⟩ := hkey.exists_eq_identifier hname hproperty
        exact ⟨_, _, _, _, _, rfl⟩
      | _ => exact nomatch hof
    cases hcalls with
    | name hholds hname => exact .inl (hholds.exists_eq_identifier hname hcallee)
    | property hholds _ hkey hname => exact .inr (haccess hholds hkey hname)
    | subscript hholds _ hkey hname => exact .inr (haccess hholds hkey hname)

/-- Every call that is met in a finished tree comes from a mapping that is reached from the root,
and what it contributes is decided by the name that the mapping calls by. -/
theorem exists_call_of_ofValue {root : Mapping} (hn : Node.ofValue (.map root) = .ok n) {p : Place}
    (hp : p ∈ n.templatePlaces ++ (Place.root n).preorder VisitorKeys.default)
    (hcall : p.node.isCall = true) :
    ∃ m, root.Reaches m ∧ m.kind = .ok "CallExpression" ∧ p.IsDecidedBy m.CallsBy := by
  obtain ⟨read, hread, heq⟩ := bind_eq_ok_iff.1 hn
  obtain rfl := Except.ok.inj heq
  obtain ⟨m, c, hreaches, hm, hc, hnode⟩ := exists_reaches_of_isCall hread hp hcall
  have hbuilds := builds_ofEntries hm
  obtain ⟨node, above⟩ := p
  cases hbuilds with
  | call hkind hcallee =>
    refine ⟨m, hreaches, (Payload.kind_ofEntries m).symm.trans hkind, ?_⟩
    have hcalled (name : String) : _ ↔ m.CallsBy name := calledName?_eq_some_iff hcallee
    obtain rfl | rfl := hnode
    · exact Place.isDecidedBy_of_calledName? hcalled _ _ _ above
    · exact Place.isDecidedBy_of_calledName? hcalled _ _ _ above
  | _ => exact nomatch hc

end Mapping

/-- A call contributes nothing unless it is made by the name of a translator. Every call that a walk
meets in the program of a script comes from a call of its tree, and every call that is met in a tree
that was read comes from a mapping reached from the root. There, the key of the first argument is
contributed if the name itself, a property with the name or a subscript that is a variable with the
name is called, and nothing is contributed otherwise: a call through any other subscript is no
translator call. -/
theorem call_isDecidedBy_callee (g : Grammars) (grammar text : String) (offset : Int)
    (root : Mapping) {p : Place} (hcall : p.node.isCall = true) :
    (∀ program, Script.parse g grammar text offset = .ok program →
      p ∈ (Place.root program).preorder VisitorKeys.default →
        ∃ tree, g.parse grammar text = .ok tree ∧ ∃ call ∈ tree.root.nodes,
          call.kind = "call_expression" ∧ p.node.mark.span = Script.spanOf offset call ∧
            p.IsDecidedBy (Script.CallsBy (Utf8.encodeString text) call)) ∧
    ∀ n, Node.ofValue (.map root) = .ok n →
      p ∈ n.templatePlaces ++ (Place.root n).preorder VisitorKeys.default →
        ∃ m, root.Reaches m ∧ m.kind = .ok "CallExpression" ∧ p.IsDecidedBy m.CallsBy :=
  ⟨fun _ h hp => Script.exists_call_of_parse h hp hcall,
    fun _ h hp => Mapping.exists_call_of_ofValue h hp hcall⟩

/-- A script with a call through a subscript. -/
def sampleSubscript : String := "a[t](\"k\")"

/-- The tree of the sample. -/
def sampleSubscriptTree : SyntaxTree where
  root :=
    .mk "program" 0 9 true
      [.mk "expression_statement" 0 9 true
        [.mk "call_expression" 0 9 true
          [.mk "subscript_expression" 0 4 true
            [.mk "identifier" 0 1 true [] [], .mk "identifier" 2 3 true [] []]
            [("object", 0), ("index", 1)],
            .mk "arguments" 4 9 true
              [.mk "string" 5 8 true [.mk "string_fragment" 6 7 true [] []] []] []]
          [("function", 0), ("arguments", 1)]] []] []
  hasError := false

/-- The same call, as a mapping. -/
def sampleSubscriptCall : Mapping :=
  [(.str "type", .str "CallExpression"),
    (.str "callee", .map [(.str "type", .str "MemberExpression"),
      (.str "object", .map [(.str "type", .str "Identifier"), (.str "name", .str "a")]),
      (.str "property", .map [(.str "type", .str "Identifier"), (.str "name", .str "t")]),
      (.str "computed", .bool true)]),
    (.str "arguments", .list [.map [(.str "type", .str "Literal"), (.str "value", .str "k")]])]

/-- In both samples a call is met and decided by its callee. -/
theorem sampleSubscript_isDecidedBy_callee :
    (∃ program, Script.parse (Script.grammarsOf sampleSubscriptTree) Grammar.javascript
        sampleSubscript 0 = .ok program ∧
      ∃ p ∈ (Place.root program).preorder VisitorKeys.default, p.node.isCall = true ∧
        ∃ tree, (Script.grammarsOf sampleSubscriptTree).parse Grammar.javascript sampleSubscript =
            .ok tree ∧ ∃ call ∈ tree.root.nodes,
          call.kind = "call_expression" ∧ p.node.mark.span = Script.spanOf 0 call ∧
            p.IsDecidedBy (Script.CallsBy (Utf8.encodeString sampleSubscript) call)) ∧
    ∃ n, Node.ofValue (.map sampleSubscriptCall) = .ok n ∧
      ∃ p ∈ n.templatePlaces ++ (Place.root n).preorder VisitorKeys.default,
        p.node.isCall = true ∧ ∃ m, sampleSubscriptCall.Reaches m ∧
          m.kind = .ok "CallExpression" ∧ p.IsDecidedBy m.CallsBy := by
  constructor
  · obtain ⟨program, hparse, hcalls⟩ : ∃ program,
        Script.parse (Script.grammarsOf sampleSubscriptTree) Grammar.javascript sampleSubscript 0 =
          .ok program ∧ program.calls ≠ [] := by
      refine ⟨_, rfl, ?_⟩
      rw [Script.calls_linkBelow_program]
      simp [Node.calls_eq, Node.held, Node.isCall]
    obtain ⟨call, hcall⟩ := List.exists_mem_of_ne_nil _ hcalls
    obtain ⟨hmem, hcall⟩ := List.mem_filter.1 hcall
    have hplace : call ∈ ((Place.root program).preorder VisitorKeys.default).map Place.node := by
      rwa [Place.map_node_preorder VisitorKeys.onlyDown_default]
    obtain ⟨p, hp, rfl⟩ := List.mem_map.1 hplace
    exact ⟨program, hparse, p, hp, hcall,
      (call_isDecidedBy_callee _ _ _ 0 sampleSubscriptCall hcall).1 program hparse hp⟩
  · have hread : Node.ofValue (.map sampleSubscriptCall) = .ok
        ((Node.call {} (.member {} (.identifier {} "a") (.identifier {} "t") true false)
          [.literal {} (.text (Text.ofString "k")) ""] false).linked) := by
      rfl
    have hplace (n : Node) : Place.root n ∈
        n.templatePlaces ++ (Place.root n).preorder VisitorKeys.default := by
      rw [Place.preorder_eq]
      exact List.mem_append_right _ List.mem_cons_self
    exact ⟨_, hread, _, hplace _, rfl,
      (call_isDecidedBy_callee (Script.grammarsOf sampleSubscriptTree) Grammar.javascript
        sampleSubscript 0 sampleSubscriptCall rfl).2 _ hread (hplace _)⟩

end TranslationKeys
