import TranslationKeys.Proofs.Component.Content
import TranslationKeys.Proofs.Tree.Nodes

/-!
# Cutting an element's content

Where the content of an element is cut depends on the bytes of the source alone, not on what any
part of it is read as. The cuts are made first here, and the nodes of the content are those of the
fragments between them, in order; so the content fails exactly if one of its fragments does.
-/

namespace TranslationKeys.Component

/-- What an element's content is cut into. -/
inductive Fragment where
  /-- What lies between mustaches and elements; it may be blank. -/
  | text (start stop : Nat)
  /-- A mustache, given by where its opening and its closing start. -/
  | mustache (opening closing : Nat)
  /-- A child element. -/
  | element (child : TreeNode)

/-- The nodes of a fragment. -/
def Fragment.nodes (ctx : Context) : Fragment → Except Failure (List Node)
  | text start stop => textBetween ctx start stop
  | mustache opening closing => do return [← Component.mustache ctx opening closing]
  | element child => do return [← elementNode ctx child]

/-- The fragments between a position and a limit, and the position after them. -/
def scanFragments (source : List UInt8) (stop limit cursor : Nat) : List Fragment × Nat :=
  if _inside : cursor < limit then
    match _opens : findPairBetween? source openingByte cursor limit with
    | none => ([.text cursor limit], limit)
    | some opening =>
      match _closes : findPairBetween? source closingByte (opening + 2) stop with
      | none => ([.text cursor limit], limit)
      | some closing =>
        let after := scanFragments source stop limit (closing + 2)
        (.text cursor opening :: .mustache opening closing :: after.1, after.2)
  else ([], cursor)
termination_by limit - cursor
decreasing_by
  have := le_of_findPairBetween? _opens
  have := le_of_findPairBetween? _closes
  omega

/-- The fragments of an element's content from a position on, given the children that are left. -/
def contentFragments (source : List UInt8) (stop : Nat) : Nat → List TreeNode → List Fragment
  | cursor, [] => (scanFragments source stop stop cursor).1
  | cursor, child :: rest =>
    if isContent child → child.start < cursor then contentFragments source stop cursor rest
    else
      let before := scanFragments source stop child.start cursor
      if child.start < before.2 then before.1 ++ contentFragments source stop before.2 rest
      else if child.kind = "comment" then
        before.1 ++ contentFragments source stop child.stop rest
      else before.1 ++ .element child :: contentFragments source stop child.stop rest

/-- The nodes of fragments, in order. -/
def nodesOf (ctx : Context) (fragments : List Fragment) : Except Failure (List Node) :=
  List.flatten <$> fragments.mapM (Fragment.nodes ctx)

/-- No fragments become no nodes. -/
theorem nodesOf_nil (ctx : Context) : nodesOf ctx [] = pure [] := rfl

/-- The nodes of fragments are those of the first and then those of the others. -/
theorem nodesOf_cons (ctx : Context) (fragment : Fragment) (fragments : List Fragment) :
    nodesOf ctx (fragment :: fragments) = do
      return (← fragment.nodes ctx) ++ (← nodesOf ctx fragments) := by
  unfold nodesOf
  rw [List.mapM_cons]
  cases fragment.nodes ctx with
  | error e => rfl
  | ok nodes => cases fragments.mapM (Fragment.nodes ctx) <;> rfl

/-- The nodes of fragments after one another are those of the first and then those of the second. -/
theorem nodesOf_append (ctx : Context) (fragments more : List Fragment) :
    nodesOf ctx (fragments ++ more) = do
      return (← nodesOf ctx fragments) ++ (← nodesOf ctx more) := by
  unfold nodesOf
  rw [List.mapM_append]
  cases fragments.mapM (Fragment.nodes ctx) with
  | error e => rfl
  | ok nodes =>
    cases more.mapM (Fragment.nodes ctx) with
    | error e => rfl
    | ok rest => exact congrArg Except.ok List.flatten_append

section Scanning

variable {source : List UInt8} {stop limit cursor opening closing : Nat}

/-- Behind its limit a scan cuts nothing. -/
theorem scanFragments_of_not_lt (h : ¬ cursor < limit) :
    scanFragments source stop limit cursor = ([], cursor) := by
  rw [scanFragments, dif_neg h]

/-- Where no mustache opens and closes again, a scan cuts one text. -/
theorem scanFragments_of_no_mustache (h : cursor < limit)
    (hnone : ∀ opening, findPairBetween? source openingByte cursor limit = some opening →
      findPairBetween? source closingByte (opening + 2) stop = none) :
    scanFragments source stop limit cursor = ([.text cursor limit], limit) := by
  rw [scanFragments, dif_pos h]
  split
  · rfl
  · rename_i opening hopens
    split
    · rfl
    · rename_i closing hcloses
      exact nomatch hcloses.symm.trans (hnone opening hopens)

/-- At the first mustache a scan cuts the text before it and goes on after it. -/
theorem scanFragments_of_mustache (h : cursor < limit)
    (hopens : findPairBetween? source openingByte cursor limit = some opening)
    (hcloses : findPairBetween? source closingByte (opening + 2) stop = some closing) :
    scanFragments source stop limit cursor =
      (.text cursor opening :: .mustache opening closing ::
          (scanFragments source stop limit (closing + 2)).1,
        (scanFragments source stop limit (closing + 2)).2) := by
  rw [scanFragments, dif_pos h]
  split
  · rename_i hnone
    exact nomatch hopens.symm.trans hnone
  · rename_i opening' hopens'
    obtain rfl := Option.some.inj (hopens'.symm.trans hopens)
    split
    · rename_i hnone
      exact nomatch hcloses.symm.trans hnone
    · rename_i closing' hcloses'
      obtain rfl := Option.some.inj (hcloses'.symm.trans hcloses)
      rfl

end Scanning

/-- A scan yields the nodes of the fragments it cuts. -/
theorem scan_eq (ctx : Context) (stop limit cursor : Nat) :
    scan ctx stop limit cursor = do
      return (← nodesOf ctx (scanFragments ctx.source stop limit cursor).1,
        (scanFragments ctx.source stop limit cursor).2) := by
  have hlast (cursor : Nat) : (do return (← textBetween ctx cursor limit, limit)) =
      (do return (← nodesOf ctx [.text cursor limit], limit) :
        Except Failure (List Node × Nat)) := by
    simp only [nodesOf_cons, nodesOf_nil, Fragment.nodes, bind_assoc, pure_bind, List.append_nil]
  fun_induction scan ctx stop limit cursor with
  | case1 cursor hinside hopens =>
    have hnone (opening : Nat) :
        findPairBetween? ctx.source openingByte cursor limit ≠ some opening := by
      rw [hopens]
      exact (Option.some_ne_none opening).symm
    rw [scanFragments_of_no_mustache hinside fun opening h => absurd h (hnone opening)]
    exact hlast cursor
  | case2 cursor hinside opening hopens hcloses =>
    rw [scanFragments_of_no_mustache hinside fun other h => by
      rwa [← Option.some.inj (hopens.symm.trans h)]]
    exact hlast cursor
  | case3 cursor hinside opening hopens closing hcloses ih =>
    rw [scanFragments_of_mustache hinside hopens hcloses, ih, nodesOf_cons, nodesOf_cons,
      Fragment.nodes, Fragment.nodes]
    simp only [bind_assoc, pure_bind, List.singleton_append]
  | case4 cursor hinside =>
    rw [scanFragments_of_not_lt hinside]
    rfl

/-- The content of an element yields the nodes of the fragments it is cut into. -/
theorem contentNodes_eq (ctx : Context) (stop cursor : Nat) (children : List TreeNode) :
    contentNodes ctx stop cursor children =
      nodesOf ctx (contentFragments ctx.source stop cursor children) := by
  induction children generalizing cursor with
  | nil =>
    rw [contentNodes, contentFragments, scan_eq]
    cases nodesOf ctx (scanFragments ctx.source stop stop cursor).1 <;> rfl
  | cons child rest ih =>
    rw [contentFragments]
    split
    · rename_i hskip
      rw [contentNodes_of_skipped hskip, ih]
    · rename_i hkept
      obtain ⟨hcontent, hfirst⟩ := Classical.not_imp.1 hkept
      rw [contentNodes_of_content hcontent (Nat.not_lt.1 hfirst), scan_eq]
      simp only [bind_assoc, pure_bind]
      generalize scanFragments ctx.source stop child.start cursor = before
      by_cases hinside : child.start < before.2
      · simp only [if_pos hinside, nodesOf_append, ih]
      · by_cases hcomment : child.kind = "comment"
        · simp only [if_neg hinside, if_pos hcomment, nodesOf_append, ih]
        · simp only [if_neg hinside, if_neg hcomment, nodesOf_append, nodesOf_cons, Fragment.nodes,
            bind_assoc, pure_bind, List.singleton_append, ih]

/-- The fragments of an element's content. -/
def fragmentsOf (source : List UInt8) (element : TreeNode) : List Fragment :=
  contentFragments source (innerStop element) (innerStart element) element.children

/-- A scan cuts texts and mustaches only. -/
theorem element_notMem_scanFragments {source : List UInt8} {stop limit cursor : Nat}
    {child : TreeNode} : .element child ∉ (scanFragments source stop limit cursor).1 := by
  fun_induction scanFragments source stop limit cursor with
  | case1 | case2 => simp
  | case3 cursor hinside opening hopens closing hcloses after ih => simpa using ih
  | case4 => simp

/-- A fragment that is an element is one of the children. -/
theorem mem_children_of_mem_contentFragments {source : List UInt8} {stop cursor : Nat}
    {children : List TreeNode} {child : TreeNode}
    (h : .element child ∈ contentFragments source stop cursor children) : child ∈ children := by
  induction children generalizing cursor with
  | nil => exact absurd h element_notMem_scanFragments
  | cons first rest ih =>
    have hafter {before : List Fragment} {cursor : Nat}
        (hbefore : .element child ∉ before)
        (h : .element child ∈ before ++ contentFragments source stop cursor rest) :
        child ∈ first :: rest :=
      List.mem_cons_of_mem _ (ih ((List.mem_append.1 h).resolve_left hbefore))
    rw [contentFragments] at h
    simp only at h
    split at h
    · exact List.mem_cons_of_mem _ (ih h)
    · split at h
      · exact hafter element_notMem_scanFragments h
      · split at h
        · exact hafter element_notMem_scanFragments h
        · rcases List.mem_append.1 h with h | h
          · exact absurd h element_notMem_scanFragments
          · rcases List.mem_cons.1 h with h | h
            · exact Fragment.element.inj h ▸ List.mem_cons_self
            · exact List.mem_cons_of_mem _ (ih h)

/-- A fragment is cut between the characters of a text: texts lie between boundaries, and mustaches
between doubled braces. -/
def Fragment.IsAligned (cs : List Char) : Fragment → Prop
  | text start stop => Utf8.IsBoundary cs start ∧ Utf8.IsBoundary cs stop
  | mustache opening closing =>
    PairAt (Utf8.encode cs) openingByte opening ∧ PairAt (Utf8.encode cs) closingByte closing ∧
      opening + 2 ≤ closing
  | element _ => True

/-- A doubled byte of ASCII starts and stops between characters. -/
theorem isBoundary_of_pairAt {cs : List Char} {b : UInt8} {p : Nat}
    (h : PairAt (Utf8.encode cs) b p) (hascii : b.toNat < 0x80) :
    Utf8.IsBoundary cs p ∧ Utf8.IsBoundary cs (p + 2) :=
  ⟨(Utf8.isBoundary_of_ascii h.1 hascii).1, (Utf8.isBoundary_of_ascii h.2 hascii).2⟩

/-- From a boundary to a boundary a scan cuts between characters, and ends at a boundary. -/
theorem isAligned_scanFragments {cs : List Char} (stop : Nat) {limit cursor : Nat}
    (hlimit : Utf8.IsBoundary cs limit) (hcursor : Utf8.IsBoundary cs cursor) :
    (∀ fragment ∈ (scanFragments (Utf8.encode cs) stop limit cursor).1, fragment.IsAligned cs) ∧
      Utf8.IsBoundary cs (scanFragments (Utf8.encode cs) stop limit cursor).2 := by
  fun_induction scanFragments (Utf8.encode cs) stop limit cursor with
  | case1 | case2 => exact ⟨List.forall_mem_singleton.2 ⟨hcursor, hlimit⟩, hlimit⟩
  | case3 cursor hinside opening hopens closing hcloses after ih =>
    obtain ⟨-, -, hopening, -⟩ := first_of_findPairBetween? hopens
    obtain ⟨hle, -, hclosing, -⟩ := first_of_findPairBetween? hcloses
    obtain ⟨hafter, hends⟩ := ih (isBoundary_of_pairAt hclosing (by decide)).2
    refine ⟨List.forall_mem_cons.2 ⟨?_, List.forall_mem_cons.2 ⟨?_, hafter⟩⟩, hends⟩
    · exact ⟨hcursor, (isBoundary_of_pairAt hopening (by decide)).1⟩
    · exact ⟨hopening, hclosing, hle⟩
  | case4 => exact ⟨List.forall_mem_nil _, hcursor⟩

/-- If the children of an element start and stop between characters, as its content does, then all
of its content is cut between characters. -/
theorem isAligned_contentFragments {cs : List Char} {stop cursor : Nat} {children : List TreeNode}
    (hchildren : ∀ child ∈ children,
      Utf8.IsBoundary cs child.start ∧ Utf8.IsBoundary cs child.stop)
    (hstop : Utf8.IsBoundary cs stop) (hcursor : Utf8.IsBoundary cs cursor) :
    ∀ fragment ∈ contentFragments (Utf8.encode cs) stop cursor children,
      fragment.IsAligned cs := by
  induction children generalizing cursor with
  | nil => exact (isAligned_scanFragments stop hstop hcursor).1
  | cons child rest ih =>
    obtain ⟨hchild, hrest⟩ := List.forall_mem_cons.1 hchildren
    obtain ⟨hbefore, hends⟩ := isAligned_scanFragments stop hchild.1 hcursor
    rw [contentFragments]
    simp only
    split
    · exact ih hrest hcursor
    · split
      · exact List.forall_mem_append.2 ⟨hbefore, ih hrest hends⟩
      · split
        · exact List.forall_mem_append.2 ⟨hbefore, ih hrest hchild.2⟩
        · exact List.forall_mem_append.2
            ⟨hbefore, List.forall_mem_cons.2 ⟨trivial, ih hrest hchild.2⟩⟩

/-- In a tree that is aligned with a text the content of every node is cut between characters. -/
theorem isAligned_fragmentsOf {cs : List Char} {root n : TreeNode} (haligned : root.IsAligned cs)
    (hn : n ∈ root.nodes) : ∀ fragment ∈ fragmentsOf (Utf8.encode cs) n, fragment.IsAligned cs := by
  have hstop : Utf8.IsBoundary cs (innerStop n) := by
    unfold innerStop
    cases hclosing : n.firstOfKinds? ["end_tag"] with
    | none => exact (haligned n hn).2
    | some tag => exact (haligned tag (TreeNode.mem_nodes_firstOfKinds? hn hclosing)).1
  have hstart : Utf8.IsBoundary cs (innerStart n) := by
    unfold innerStart
    cases htag : openingTag? n with
    | none => exact (haligned n hn).1
    | some tag => exact (haligned tag (TreeNode.mem_nodes_firstOfKinds? hn htag)).2
  exact isAligned_contentFragments
    (fun child hchild => haligned child (TreeNode.mem_nodes_child hn hchild)) hstop hstart

end TranslationKeys.Component
