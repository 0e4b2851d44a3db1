import TranslationKeys.Component.Template
import TranslationKeys.Proofs.Related
import Mathlib

/-!
# Template content in pieces

The content of an element is cut into pieces that lie end to end: blanks, text, mustaches, comments
and elements. The pieces say once what a scan between two children and a run over all children can
do; where nodes lie, which bytes they leave out and what a mustache looks like in the source are
read off them.
-/

namespace TranslationKeys

namespace Node

/-- A node covers the bytes between two positions. -/
def Covers (n : Node) (first last : Nat) : Prop :=
  n.mark.span = Span.bytes first last

/-- A node covers the bytes between two positions only. -/
theorem Covers.eq {n : Node} {first last first' last' : Nat} (h : n.Covers first last)
    (h' : n.Covers first' last') : first = first' ∧ last = last' := by
  have hspan : Span.bytes first last = Span.bytes first' last' := h.symm.trans h'
  simp only [Span.bytes, Span.mk.injEq, Offset.byte.injEq] at hspan
  omega

end Node

namespace Component

/-- A byte stands at a position and once more right after it. -/
def PairAt (source : List UInt8) (b : UInt8) (p : Nat) : Prop :=
  source[p]? = some b ∧ source[p + 1]? = some b

instance (source : List UInt8) (b : UInt8) (p : Nat) : Decidable (PairAt source b p) :=
  inferInstanceAs (Decidable (_ ∧ _))

/-- A pair behind the first byte of a list is a pair of the rest. -/
theorem pairAt_cons_succ {x b : UInt8} {xs : List UInt8} {p : Nat} :
    PairAt (x :: xs) b (p + 1) ↔ PairAt xs b p := by
  simp [PairAt]

/-- A pair of a slice is a pair of the source that ends before the slice does. -/
theorem pairAt_slice {source : List UInt8} {b : UInt8} {start stop p : Nat} :
    PairAt (Utf8.slice source start stop) b p ↔
      PairAt source b (start + p) ∧ start + p + 2 ≤ stop := by
  simp only [PairAt, Utf8.slice, List.getElem?_drop, List.getElem?_take]
  grind

/-- The search for a pair finds the first one there is. -/
theorem findPair?_first (b : UInt8) (xs : List UInt8) :
    match findPair? b xs with
    | some k => PairAt xs b k ∧ ∀ q < k, ¬ PairAt xs b q
    | none => ∀ q, ¬ PairAt xs b q := by
  fun_induction findPair? b xs with
  | case1 x y rest hpair =>
    simp only [Bool.and_eq_true, beq_iff_eq] at hpair
    exact ⟨by simp [PairAt, hpair], fun q hq => absurd hq (Nat.not_lt_zero q)⟩
  | case2 x y rest hpair ih =>
    have hfirst : ¬ PairAt (x :: y :: rest) b 0 := by
      simpa [PairAt] using hpair
    cases hfound : findPair? b (y :: rest) with
    | none =>
      simp only [hfound, Option.map_none] at ih ⊢
      intro q
      cases q with
      | zero => exact hfirst
      | succ q => exact fun hq => ih q (pairAt_cons_succ.1 hq)
    | some k =>
      simp only [hfound, Option.map_some] at ih ⊢
      refine ⟨pairAt_cons_succ.2 ih.1, fun q hq => ?_⟩
      cases q with
      | zero => exact hfirst
      | succ q => exact fun hpairAt => ih.2 q (by omega) (pairAt_cons_succ.1 hpairAt)
  | case3 xs hshort =>
    intro q hq
    match xs with
    | [] => simp [PairAt] at hq
    | [x] => simp [PairAt] at hq
    | x :: y :: rest => exact hshort x y rest rfl

/-- A pair found between two positions is the first one there. -/
theorem first_of_findPairBetween? {source : List UInt8} {b : UInt8} {start stop p : Nat}
    (h : findPairBetween? source b start stop = some p) :
    start ≤ p ∧ p + 2 ≤ stop ∧ PairAt source b p ∧
      ∀ q, start ≤ q → q < p → ¬ PairAt source b q := by
  obtain ⟨k, hk, rfl⟩ := Option.map_eq_some_iff.1 h
  have hfirst := findPair?_first b (Utf8.slice source start stop)
  rw [hk] at hfirst
  obtain ⟨hpair, hstop⟩ := pairAt_slice.1 hfirst.1
  refine ⟨by omega, hstop, hpair, fun q hstart hq hpairAt => ?_⟩
  refine hfirst.2 (q - start) (by omega) (pairAt_slice.2 ?_)
  rw [Nat.add_sub_cancel' hstart]
  exact ⟨hpairAt, by omega⟩

/-- Where no pair is found between two positions, there is none. -/
theorem not_pairAt_of_findPairBetween? {source : List UInt8} {b : UInt8} {start stop : Nat}
    (h : findPairBetween? source b start stop = none) {q : Nat} (hstart : start ≤ q)
    (hstop : q + 2 ≤ stop) : ¬ PairAt source b q := by
  have hnone := findPair?_first b (Utf8.slice source start stop)
  rw [Option.map_eq_none_iff.1 h] at hnone
  intro hpair
  refine hnone (q - start) (pairAt_slice.2 ?_)
  rw [Nat.add_sub_cancel' hstart]
  exact ⟨hpair, hstop⟩

/-- Whether a child takes part in the content of an element: an element or a comment. -/
def isContent (child : TreeNode) : Bool :=
  child.named && (elementKinds.contains child.kind || child.kind == "comment")

/-- A piece of an element's content. -/
inductive Piece where
  /-- A run of blanks, which leaves no node. -/
  | blank (start stop : Nat)
  /-- A comment, which leaves no node. -/
  | comment (child : TreeNode)
  /-- A run of text. -/
  | text (start stop : Nat) (value : String)
  /-- A mustache, from its opening up to and including its closing. -/
  | mustache (opening closing : Nat) (expression : Option Node)
  /-- A child element with its node. -/
  | element (child : TreeNode) (node : Node)

namespace Piece

/-- Where a piece starts. -/
def start : Piece → Nat
  | blank start _ | text start _ _ | mustache start _ _ => start
  | comment child | element child _ => child.start

/-- Where a piece stops. -/
def stop : Piece → Nat
  | blank _ stop | text _ stop _ => stop
  | mustache _ closing _ => closing + 2
  | comment child | element child _ => child.stop

/-- The nodes that a piece leaves, one at most. -/
def nodes : Piece → List Node
  | blank .. | comment _ => []
  | text start stop value => [.templateText { span := Span.bytes start stop } value]
  | mustache opening closing expression =>
    [.container { span := Span.bytes opening (closing + 2 : Nat) } expression]
  | element _ node => [node]

/-- What a piece of some content is, in terms of the source, of where the content stops and of the
children of its element. -/
def IsSound (ctx : Context) (stop : Nat) (children : List TreeNode) : Piece → Prop
  | blank first last => ∀ p b, first ≤ p → p < last → ctx.source[p]? = some b → isBlankByte b
  | comment child => child ∈ children ∧ child.named ∧ child.kind = "comment"
  | text first last _ => ∀ p, first ≤ p → p + 2 ≤ last → PairAt ctx.source openingByte p →
      ∀ q, p + 2 ≤ q → q + 2 ≤ stop → ¬ PairAt ctx.source closingByte q
  | mustache opening closing _ => PairAt ctx.source openingByte opening ∧
      PairAt ctx.source closingByte closing ∧ opening + 2 ≤ closing ∧
      ∀ q, opening + 2 ≤ q → q < closing → ¬ PairAt ctx.source closingByte q
  | element child node => child ∈ children ∧ child.named ∧ child.kind ∈ elementKinds ∧
      elementNode ctx child = .ok node

/-- The pieces of part of the children are pieces of all of them. -/
theorem IsSound.mono {ctx : Context} {stop : Nat} {children more : List TreeNode} {piece : Piece}
    (hsub : ∀ child ∈ children, child ∈ more) (h : piece.IsSound ctx stop children) :
    piece.IsSound ctx stop more := by
  cases piece with
  | comment child | element child node => exact ⟨hsub _ h.1, h.2⟩
  | blank | text | mustache => exact h

end Piece

/-- Pieces that lie end to end between two positions. -/
def Tiles : Nat → List Piece → Nat → Prop
  | first, [], last => first = last
  | first, piece :: pieces, last =>
    piece.start = first ∧ piece.start ≤ piece.stop ∧ Tiles piece.stop pieces last

/-- Pieces from one position to a second and from there to a third lie end to end. -/
theorem Tiles.append {first middle last : Nat} {pieces more : List Piece}
    (h : Tiles first pieces middle) (hmore : Tiles middle more last) :
    Tiles first (pieces ++ more) last := by
  induction pieces generalizing first with
  | nil =>
    obtain rfl : first = middle := h
    exact hmore
  | cons piece pieces ih => exact ⟨h.1, h.2.1, ih h.2.2⟩

/-- Pieces that lie end to end never go back. -/
theorem Tiles.le {first last : Nat} {pieces : List Piece} (h : Tiles first pieces last) :
    first ≤ last := by
  induction pieces generalizing first with
  | nil => exact Nat.le_of_eq h
  | cons piece pieces ih =>
    have hrest := ih h.2.2
    have hpiece := h.2.1
    have hstart := h.1
    omega

/-- The run between two positions without a mustache that closes is one piece. -/
theorem exists_piece_of_textBetween {ctx : Context} {first last : Nat} {nodes : List Node}
    (stop : Nat) (h : textBetween ctx first last = .ok nodes)
    (hopen : ∀ p, first ≤ p → p + 2 ≤ last → PairAt ctx.source openingByte p →
      ∀ q, p + 2 ≤ q → q + 2 ≤ stop → ¬ PairAt ctx.source closingByte q) :
    ∃ piece : Piece, piece.start = first ∧ piece.stop = last ∧ piece.IsSound ctx stop [] ∧
      piece.nodes = nodes := by
  simp only [textBetween] at h
  split at h
  · rename_i hblank
    refine ⟨.blank first last, rfl, rfl, fun p b hfirst hlast hbyte => ?_, Except.ok.inj h⟩
    rw [List.all_eq_true] at hblank
    apply hblank
    rw [List.mem_iff_getElem?]
    refine ⟨p - first, ?_⟩
    rw [Utf8.slice, List.getElem?_drop, Nat.add_sub_cancel' hfirst, List.getElem?_take,
      if_pos hlast]
    exact hbyte
  · simp only [bind_eq_ok_iff] at h
    obtain ⟨chars, -, value, -, hnodes⟩ := h
    exact ⟨.text first last (String.ofList value), rfl, rfl, hopen, Except.ok.inj hnodes⟩

/-- What a scan leaves behind it: pieces from where it starts to where it ends, at least as far as
its limit. It gets beyond the limit only by a mustache that opens before it. -/
structure Scanned (ctx : Context) (stop limit cursor : Nat) (pieces : List Piece)
    (final : Nat) : Prop where
  /-- The pieces lie end to end. -/
  tiles : Tiles cursor pieces final
  /-- The pieces are pieces of the content, children apart. -/
  sound : ∀ piece ∈ pieces, piece.IsSound ctx stop []
  /-- The scan gets to its limit. -/
  reaches : limit ≤ final
  /-- The scan stays in the content. -/
  stays : final ≤ stop
  /-- A scan that moves beyond its limit does so by a mustache. -/
  beyond : limit < final → final = cursor ∨ ∃ opening closing expression,
    Piece.mustache opening closing expression ∈ pieces ∧ opening < limit ∧ closing + 2 = final

/-- A run of text up to the limit is a scan. -/
theorem Scanned.of_piece {ctx : Context} {stop limit cursor : Nat} {piece : Piece}
    (hstart : piece.start = cursor) (hstop : piece.stop = limit)
    (hsound : piece.IsSound ctx stop []) (hcursor : cursor ≤ limit) (hlimit : limit ≤ stop) :
    Scanned ctx stop limit cursor [piece] limit where
  tiles := ⟨hstart, by omega, hstop⟩
  sound := by simpa using hsound
  reaches := Nat.le_refl _
  stays := hlimit
  beyond h := absurd h (Nat.lt_irrefl _)

/-- A run of text and a mustache before a scan are a scan. -/
theorem Scanned.mustache {ctx : Context} {stop limit cursor final opening closing : Nat}
    {expression : Option Node} {piece : Piece} {pieces : List Piece}
    (hstart : piece.start = cursor) (hstop : piece.stop = opening) (hcursor : cursor ≤ opening)
    (hsound : piece.IsSound ctx stop []) (hopening : opening < limit)
    (hmustache : (Piece.mustache opening closing expression).IsSound ctx stop [])
    (h : Scanned ctx stop limit (closing + 2) pieces final) :
    Scanned ctx stop limit cursor (piece :: .mustache opening closing expression :: pieces)
      final where
  tiles := by
    have hwide : opening ≤ closing + 2 := by
      have := hmustache.2.2.1
      omega
    exact ⟨hstart, by omega, hstop.symm, hwide, h.tiles⟩
  sound := by
    intro other hother
    rcases List.mem_cons.1 hother with rfl | hother
    · exact hsound
    · rcases List.mem_cons.1 hother with rfl | hother
      · exact hmustache
      · exact h.sound other hother
  reaches := h.reaches
  stays := h.stays
  beyond hbeyond := by
    right
    rcases h.beyond hbeyond with hfinal | ⟨first, last, inner, hmem, hfirst, hlast⟩
    · exact ⟨opening, closing, expression, by simp, hopening, hfinal.symm⟩
    · exact ⟨first, last, inner, by simp [hmem], hfirst, hlast⟩

/-- A scan leaves the nodes of its pieces. -/
theorem exists_scanned_of_scan {ctx : Context} {stop limit cursor final : Nat} {nodes : List Node}
    (h : scan ctx stop limit cursor = .ok (nodes, final)) (hcursor : cursor ≤ stop)
    (hlimit : limit ≤ stop) :
    ∃ pieces, Scanned ctx stop limit cursor pieces final ∧
      pieces.flatMap Piece.nodes = nodes := by
  fun_induction scan ctx stop limit cursor generalizing nodes final with
  | case1 cursor hinside hnone =>
    obtain ⟨text, htext, heq⟩ := bind_eq_ok_iff.1 h
    obtain ⟨rfl, rfl⟩ := Prod.mk.inj (Except.ok.inj heq)
    obtain ⟨piece, hstart, hstop, hsound, hnodes⟩ :=
      exists_piece_of_textBetween stop htext fun p hp hlast hpair =>
        absurd hpair (not_pairAt_of_findPairBetween? hnone hp hlast)
    exact ⟨[piece], .of_piece hstart hstop hsound (Nat.le_of_lt hinside) hlimit, by simpa⟩
  | case2 cursor hinside opening hopens hnone =>
    obtain ⟨text, htext, heq⟩ := bind_eq_ok_iff.1 h
    obtain ⟨rfl, rfl⟩ := Prod.mk.inj (Except.ok.inj heq)
    -- Every opening up to the limit comes after the first, behind which nothing closes.
    have hfirst := (first_of_findPairBetween? hopens).2.2.2
    obtain ⟨piece, hstart, hstop, hsound, hnodes⟩ :=
      exists_piece_of_textBetween stop htext fun p hp _ hpair q hq hlast =>
        not_pairAt_of_findPairBetween? hnone
          (by have := Nat.not_lt.1 fun hlt => hfirst p hp hlt hpair; omega) hlast
    exact ⟨[piece], .of_piece hstart hstop hsound (Nat.le_of_lt hinside) hlimit, by simpa⟩
  | case3 cursor hinside opening hopens closing hcloses ih =>
    simp only [bind_eq_ok_iff, mustache] at h
    obtain ⟨text, htext, node, ⟨content, -, expression, -, hnode⟩, ⟨after, last⟩, hafter, heq⟩ := h
    obtain ⟨rfl, rfl⟩ := Prod.mk.inj (Except.ok.inj heq)
    obtain ⟨hcursor', hopening, hopenAt, hfirst⟩ := first_of_findPairBetween? hopens
    obtain ⟨hclosing, hstop, hcloseAt, hnone⟩ := first_of_findPairBetween? hcloses
    obtain ⟨piece, hpstart, hpstop, hsound, hnodes⟩ :=
      exists_piece_of_textBetween stop htext fun p hp hlast hpair =>
        absurd hpair (hfirst p hp (by omega))
    obtain ⟨pieces, hscanned, hrest⟩ := ih hafter (by omega)
    refine ⟨piece :: .mustache opening closing expression :: pieces,
      hscanned.mustache hpstart hpstop hcursor' hsound (by omega)
        ⟨hopenAt, hcloseAt, hclosing, hnone⟩, ?_⟩
    rw [List.flatMap_cons, List.flatMap_cons, hnodes, hrest, ← Except.ok.inj hnode]
    rfl
  | case4 cursor hinside =>
    obtain ⟨rfl, rfl⟩ := Prod.mk.inj (Except.ok.inj h)
    exact ⟨[], ⟨rfl, by simp, Nat.not_lt.1 hinside, hcursor, fun _ => .inl rfl⟩, rfl⟩

/-- The children that take part in some content lie one after the other between two positions. -/
structure LaidOut (start stop : Nat) (children : List TreeNode) : Prop where
  /-- Each starts where the one before it stops, or later. -/
  ordered : (children.filter isContent).Pairwise fun child next => child.stop ≤ next.start
  /-- Each lies between the two positions. -/
  inside : ∀ child ∈ children, isContent child →
    start ≤ child.start ∧ child.start ≤ child.stop ∧ child.stop ≤ stop

instance (start stop : Nat) (children : List TreeNode) : Decidable (LaidOut start stop children) :=
  decidable_of_iff (_ ∧ _) ⟨fun h => LaidOut.mk h.1 h.2, fun h => ⟨h.ordered, h.inside⟩⟩

/-- What becomes of a child that takes part in some content: it is a piece of its own, or it starts
in a mustache. -/
def IsKept (pieces : List Piece) (child : TreeNode) : Prop :=
  (child.kind = "comment" ∧ Piece.comment child ∈ pieces) ∨
    (∃ node, Piece.element child node ∈ pieces) ∨
    ∃ opening closing expression, Piece.mustache opening closing expression ∈ pieces ∧
      opening < child.start ∧ child.start < closing + 2

/-- A child that is kept among some pieces is kept among more of them. -/
theorem IsKept.mono {pieces more : List Piece} {child : TreeNode} (h : IsKept pieces child)
    (hsub : ∀ piece ∈ pieces, piece ∈ more) : IsKept more child := by
  rcases h with ⟨hkind, hmem⟩ | ⟨node, hmem⟩ | ⟨opening, closing, expression, hmem, hinside⟩
  · exact .inl ⟨hkind, hsub _ hmem⟩
  · exact .inr (.inl ⟨node, hsub _ hmem⟩)
  · exact .inr (.inr ⟨opening, closing, expression, hsub _ hmem, hinside⟩)

/-- What the content of an element becomes from a position on: pieces up to its end. A child that
takes part in it is kept unless it starts before the position. -/
structure Built (ctx : Context) (stop cursor : Nat) (children : List TreeNode)
    (pieces : List Piece) : Prop where
  /-- The pieces lie end to end. -/
  tiles : Tiles cursor pieces stop
  /-- The pieces are pieces of the content. -/
  sound : ∀ piece ∈ pieces, piece.IsSound ctx stop children
  /-- Children are kept. -/
  kept : ∀ child ∈ children, isContent child → child.start < cursor ∨ IsKept pieces child

/-- A child that takes no part in the content, or starts before the position, changes nothing. -/
theorem Built.skip {ctx : Context} {stop cursor : Nat} {child : TreeNode}
    {children : List TreeNode} {pieces : List Piece} (h : Built ctx stop cursor children pieces)
    (hskip : isContent child → child.start < cursor) :
    Built ctx stop cursor (child :: children) pieces where
  tiles := h.tiles
  sound piece hpiece := (h.sound piece hpiece).mono fun _ => List.mem_cons_of_mem child
  kept other hother hcontent := by
    rcases List.mem_cons.1 hother with rfl | hother
    · exact .inl (hskip hcontent)
    · exact h.kept other hother hcontent

/-- A scan before a child that starts in a mustache, and what comes after. -/
theorem Scanned.built_inside {ctx : Context} {stop cursor final : Nat} {child : TreeNode}
    {children : List TreeNode} {before pieces : List Piece}
    (hscanned : Scanned ctx stop child.start cursor before final) (hcursor : cursor ≤ child.start)
    (hinside : child.start < final)
    (hlater : ∀ other ∈ children, isContent other → child.start ≤ other.start)
    (h : Built ctx stop final children pieces) :
    Built ctx stop cursor (child :: children) (before ++ pieces) where
  tiles := hscanned.tiles.append h.tiles
  sound piece hpiece := by
    rcases List.mem_append.1 hpiece with hbefore | hafter
    · exact (hscanned.sound piece hbefore).mono (by simp)
    · exact (h.sound piece hafter).mono fun _ => List.mem_cons_of_mem child
  kept other hother hcontent := by
    right
    -- The mustache that leads beyond the child also holds whatever starts before the scan ends.
    have hkept (hfirst : child.start ≤ other.start) (hlast : other.start < final) :
        IsKept (before ++ pieces) other := by
      rcases hscanned.beyond hinside with hfinal | ⟨opening, closing, expression, hmem, hopen, hend⟩
      · omega
      · exact .inr (.inr ⟨opening, closing, expression, by simp [hmem], by omega, by omega⟩)
    rcases List.mem_cons.1 hother with rfl | hother
    · exact hkept (Nat.le_refl _) hinside
    · rcases h.kept other hother hcontent with hlast | hkept'
      · exact hkept (hlater other hother hcontent) hlast
      · exact hkept'.mono (by simp +contextual)

/-- A scan before a child that is a piece of its own, and what comes after. -/
theorem Scanned.built_piece {ctx : Context} {stop cursor : Nat} {child : TreeNode}
    {children : List TreeNode} {before pieces : List Piece} {piece : Piece}
    (hscanned : Scanned ctx stop child.start cursor before child.start)
    (hstart : piece.start = child.start) (hstop : piece.stop = child.stop)
    (hwide : child.start ≤ child.stop) (hsound : piece.IsSound ctx stop (child :: children))
    (hkept : IsKept [piece] child)
    (hlater : ∀ other ∈ children, isContent other → child.stop ≤ other.start)
    (h : Built ctx stop child.stop children pieces) :
    Built ctx stop cursor (child :: children) (before ++ piece :: pieces) where
  tiles := hscanned.tiles.append ⟨hstart, by omega, hstop ▸ h.tiles⟩
  sound other hother := by
    rcases List.mem_append.1 hother with hbefore | hother
    · exact (hscanned.sound other hbefore).mono (by simp)
    · rcases List.mem_cons.1 hother with rfl | hafter
      · exact hsound
      · exact (h.sound other hafter).mono fun _ => List.mem_cons_of_mem child
  kept other hother hcontent := by
    right
    rcases List.mem_cons.1 hother with rfl | hother
    · exact hkept.mono (by simp)
    · rcases h.kept other hother hcontent with hfirst | hkept
      · exact absurd (hlater other hother hcontent) (Nat.not_le.2 hfirst)
      · exact hkept.mono (by simp +contextual)

/-- The children after the first one are laid out as well. -/
theorem LaidOut.tail {start stop : Nat} {child : TreeNode} {children : List TreeNode}
    (h : LaidOut start stop (child :: children)) : LaidOut start stop children where
  ordered := h.ordered.sublist ((List.sublist_cons_self child children).filter _)
  inside other hother := h.inside other (List.mem_cons_of_mem _ hother)

/-- The children after one that takes part in the content start where it stops, or later. -/
theorem LaidOut.le_start {start stop : Nat} {child other : TreeNode} {children : List TreeNode}
    (h : LaidOut start stop (child :: children)) (hcontent : isContent child)
    (hmem : other ∈ children) (hother : isContent other) : child.stop ≤ other.start := by
  have hordered := h.ordered
  rw [List.filter_cons_of_pos hcontent, List.pairwise_cons] at hordered
  exact hordered.1 other (List.mem_filter.2 ⟨hmem, hother⟩)

/-- A child that takes no part in the content, or starts before the position, is passed over. -/
theorem contentNodes_of_skipped {ctx : Context} {stop cursor : Nat} {child : TreeNode}
    {children : List TreeNode} (hskip : isContent child → child.start < cursor) :
    contentNodes ctx stop cursor (child :: children) = contentNodes ctx stop cursor children := by
  rw [contentNodes, ← Bool.not_and, ← isContent, if_pos]
  cases hcontent : isContent child with
  | true => simp [hskip hcontent]
  | false => rfl

/-- Up to a child that takes part in the content the source is scanned; the child is then a node of
its own unless it is a comment or starts in a mustache. -/
theorem contentNodes_of_content {ctx : Context} {stop cursor : Nat} {child : TreeNode}
    {children : List TreeNode} (hcontent : isContent child) (hfirst : cursor ≤ child.start) :
    contentNodes ctx stop cursor (child :: children) =
      scan ctx stop child.start cursor >>= fun scanned =>
        if child.start < scanned.2 then
          contentNodes ctx stop scanned.2 children >>= fun after => pure (scanned.1 ++ after)
        else if child.kind = "comment" then
          contentNodes ctx stop child.stop children >>= fun after => pure (scanned.1 ++ after)
        else
          elementNode ctx child >>= fun element =>
            contentNodes ctx stop child.stop children >>= fun after =>
              pure (scanned.1 ++ element :: after) := by
  rw [contentNodes, ← Bool.not_and, ← isContent, if_neg]
  · simp only [beq_iff_eq]
  · simp [hcontent, Nat.not_lt.2 hfirst]

/-- The content of an element leaves the nodes of its pieces. -/
theorem exists_built_of_contentNodes {ctx : Context} {start stop cursor : Nat}
    {children : List TreeNode} {nodes : List Node}
    (h : contentNodes ctx stop cursor children = .ok nodes) (hlaid : LaidOut start stop children)
    (hcursor : cursor ≤ stop) :
    ∃ pieces, Built ctx stop cursor children pieces ∧ pieces.flatMap Piece.nodes = nodes := by
  induction children generalizing cursor nodes with
  | nil =>
    rw [contentNodes] at h
    obtain ⟨⟨found, final⟩, hscan, heq⟩ := bind_eq_ok_iff.1 h
    obtain rfl := Except.ok.inj heq
    obtain ⟨pieces, hscanned, hnodes⟩ := exists_scanned_of_scan hscan hcursor (Nat.le_refl stop)
    obtain rfl : final = stop := Nat.le_antisymm hscanned.stays hscanned.reaches
    exact ⟨pieces, ⟨hscanned.tiles, hscanned.sound, by simp⟩, hnodes⟩
  | cons child children ih =>
    by_cases hskip : isContent child → child.start < cursor
    · rw [contentNodes_of_skipped hskip] at h
      obtain ⟨pieces, hbuilt, hnodes⟩ := ih h hlaid.tail hcursor
      exact ⟨pieces, hbuilt.skip hskip, hnodes⟩
    · obtain ⟨hcontent, hfirst⟩ : isContent child ∧ cursor ≤ child.start := by
        simpa using hskip
      have hchild := hlaid.inside child List.mem_cons_self hcontent
      have hafter (other : TreeNode) (hmem : other ∈ children) (hother : isContent other) :=
        hlaid.le_start hcontent hmem hother
      rw [contentNodes_of_content hcontent hfirst] at h
      obtain ⟨⟨found, final⟩, hscan, h⟩ := bind_eq_ok_iff.1 h
      obtain ⟨before, hscanned, hfound⟩ := exists_scanned_of_scan hscan hcursor (by omega)
      split at h
      · rename_i hinside
        obtain ⟨after, hafterNodes, heq⟩ := bind_eq_ok_iff.1 h
        obtain rfl := Except.ok.inj heq
        obtain ⟨pieces, hbuilt, hnodes⟩ := ih hafterNodes hlaid.tail hscanned.stays
        refine ⟨before ++ pieces, hscanned.built_inside hfirst hinside (fun other hmem hother =>
          Nat.le_trans hchild.2.1 (hafter other hmem hother)) hbuilt, ?_⟩
        rw [List.flatMap_append, hfound, hnodes]
      · rename_i hinside
        obtain rfl : final = child.start := Nat.le_antisymm (Nat.not_lt.1 hinside) hscanned.reaches
        have hnamed : child.named := by simp [isContent] at hcontent; exact hcontent.1
        split at h
        · rename_i hcomment
          obtain ⟨after, hafterNodes, heq⟩ := bind_eq_ok_iff.1 h
          obtain rfl := Except.ok.inj heq
          obtain ⟨pieces, hbuilt, hnodes⟩ := ih hafterNodes hlaid.tail hchild.2.2
          refine ⟨before ++ .comment child :: pieces, hscanned.built_piece rfl rfl hchild.2.1
            ⟨List.mem_cons_self, hnamed, hcomment⟩ (.inl ⟨hcomment, by simp⟩) hafter hbuilt, ?_⟩
          rw [List.flatMap_append, List.flatMap_cons, hfound, hnodes]
          rfl
        · rename_i hcomment
          obtain ⟨element, helement, h⟩ := bind_eq_ok_iff.1 h
          obtain ⟨after, hafterNodes, heq⟩ := bind_eq_ok_iff.1 h
          obtain rfl := Except.ok.inj heq
          obtain ⟨pieces, hbuilt, hnodes⟩ := ih hafterNodes hlaid.tail hchild.2.2
          have hkind : child.kind ∈ elementKinds := by
            simpa [isContent, hnamed, hcomment] using hcontent
          refine ⟨before ++ .element child element :: pieces, hscanned.built_piece rfl rfl
            hchild.2.1 ⟨List.mem_cons_self, hnamed, hkind, helement⟩
            (.inr (.inl ⟨element, by simp⟩))
            hafter hbuilt, ?_⟩
          rw [List.flatMap_append, List.flatMap_cons, hfound, hnodes]
          rfl

/-- Every piece of a tiling lies between its two positions. -/
theorem Tiles.bounds {first last : Nat} {pieces : List Piece} (h : Tiles first pieces last)
    {piece : Piece} (hmem : piece ∈ pieces) :
    first ≤ piece.start ∧ piece.start ≤ piece.stop ∧ piece.stop ≤ last := by
  induction pieces generalizing first with
  | nil => exact absurd hmem List.not_mem_nil
  | cons head pieces ih =>
    have hhead := h.1
    have hwide := h.2.1
    rcases List.mem_cons.1 hmem with rfl | hmem
    · exact ⟨Nat.le_of_eq hhead.symm, hwide, h.2.2.le⟩
    · have := ih h.2.2 hmem
      omega

/-- Every piece of a tiling stops where the ones after it start, or before. -/
theorem Tiles.pairwise {first last : Nat} {pieces : List Piece} (h : Tiles first pieces last) :
    pieces.Pairwise fun piece next => piece.stop ≤ next.start := by
  induction pieces generalizing first with
  | nil => exact .nil
  | cons head pieces ih =>
    exact .cons (fun piece hpiece => (h.2.2.bounds hpiece).1) (ih h.2.2)

/-- Every position between the two of a tiling lies in a piece. -/
theorem Tiles.exists_mem {first last p : Nat} {pieces : List Piece} (h : Tiles first pieces last)
    (hfirst : first ≤ p) (hlast : p < last) :
    ∃ piece ∈ pieces, piece.start ≤ p ∧ p < piece.stop := by
  induction pieces generalizing first with
  | nil =>
    obtain rfl : first = last := h
    omega
  | cons head pieces ih =>
    by_cases hhead : p < head.stop
    · exact ⟨head, List.mem_cons_self, by have := h.1; omega, hhead⟩
    · obtain ⟨piece, hpiece, hin⟩ := ih h.2.2 (Nat.not_lt.1 hhead)
      exact ⟨piece, List.mem_cons_of_mem _ hpiece, hin⟩

/-- Where the content of an element starts: after its opening tag. -/
def innerStart (element : TreeNode) : Nat :=
  (openingTag? element).elim element.start TreeNode.stop

/-- Where the content of an element stops: before its closing tag. -/
def innerStop (element : TreeNode) : Nat :=
  (element.firstOfKinds? ["end_tag"]).elim element.stop TreeNode.start

/-- The node of an element covers it and holds the nodes of its opening tag and of its content. -/
theorem elementNode_eq_ok {ctx : Context} {element : TreeNode} {node : Node}
    (h : elementNode ctx element = .ok node) :
    ∃ name rawName tag content closing,
      node = .element { span := Span.bytes element.start element.stop } name rawName tag content
        closing ∧
      tagNode ctx (openingTag? element) = .ok tag ∧
      (element.kind ∉ rawTextKinds →
        contentNodes ctx (innerStop element) (innerStart element) element.children =
          .ok content) := by
  obtain ⟨kind, start, stop, isNamed, children, fields⟩ := element
  simp only [elementNode, bind_eq_ok_iff] at h
  obtain ⟨rawName, -, tag, htag, h⟩ := h
  split at h
  · rename_i hraw
    obtain ⟨content, -, hnode⟩ := bind_eq_ok_iff.1 h
    obtain rfl := Except.ok.inj hnode
    exact ⟨_, _, tag, content, _, rfl, htag, fun hkind => absurd (List.elem_iff.1 hraw) hkind⟩
  · obtain ⟨content, hcontent, hnode⟩ := bind_eq_ok_iff.1 h
    obtain rfl := Except.ok.inj hnode
    exact ⟨_, _, tag, content, _, rfl, htag, fun _ => hcontent⟩

/-- A child starts in one of the mustaches among the nodes of some content. -/
def StartsInMustache (nodes : List Node) (child : TreeNode) : Prop :=
  ∃ mark expression first last, Node.container mark expression ∈ nodes ∧
    (Node.container mark expression).Covers first last ∧ first ≤ child.start ∧ child.start < last

/-- The nodes of some content, given by its source, its children and its two ends, part it among
them: nothing but blanks and comments is left out, and mustaches go as far as they can. -/
structure IsPartition (source : List UInt8) (children : List TreeNode) (start stop : Nat)
    (nodes : List Node) : Prop where
  /-- All nodes lie in the content. -/
  inside : ∀ node ∈ nodes, ∃ first last, node.Covers first last ∧
    start ≤ first ∧ first ≤ last ∧ last ≤ stop
  /-- Each node starts where those before it stop, or later. -/
  ordered : nodes.Pairwise fun node next => ∀ first last first' last',
    node.Covers first last → next.Covers first' last' → last ≤ first'
  /-- What no node covers is blank or lies in a comment that does not start in a mustache. -/
  uncovered : ∀ p b, start ≤ p → p < stop → source[p]? = some b →
    (∀ node ∈ nodes, ∀ first last, node.Covers first last → ¬ (first ≤ p ∧ p < last)) →
    isBlankByte b ∨ ∃ comment ∈ children, comment.named ∧ comment.kind = "comment" ∧
      comment.start ≤ p ∧ p < comment.stop ∧ ¬ StartsInMustache nodes comment
  /-- Each mustache goes from two opening braces to the first two closing braces after them. -/
  mustaches : ∀ mark expression, Node.container mark expression ∈ nodes → ∃ opening closing,
    (Node.container mark expression).Covers opening (closing + 2) ∧ opening + 2 ≤ closing ∧
    PairAt source openingByte opening ∧ PairAt source closingByte closing ∧
    ∀ q, opening + 2 ≤ q → q < closing → ¬ PairAt source closingByte q
  /-- Two opening braces stay in a text only if no closing ones come after them. -/
  texts : ∀ mark value first last, Node.templateText mark value ∈ nodes →
    (Node.templateText mark value).Covers first last → ∀ p, first ≤ p → p + 2 ≤ last →
    PairAt source openingByte p → ∀ q, p + 2 ≤ q → q + 2 ≤ stop → ¬ PairAt source closingByte q

/-- The node of a sound piece covers what the piece does. -/
theorem Piece.IsSound.covers {ctx : Context} {stop : Nat} {children : List TreeNode} {piece : Piece}
    {node : Node} (h : piece.IsSound ctx stop children) (hnode : node ∈ piece.nodes) :
    node.Covers piece.start piece.stop := by
  cases piece with
  | blank | comment => exact absurd hnode List.not_mem_nil
  | text | mustache =>
    obtain rfl := List.mem_singleton.1 hnode
    rfl
  | element child built =>
    obtain rfl := List.mem_singleton.1 hnode
    obtain ⟨name, rawName, tag, content, closing, rfl, -⟩ := elementNode_eq_ok h.2.2.2
    rfl

/-- A container is the node of a mustache. -/
theorem Piece.IsSound.mustache_of_container {ctx : Context} {stop : Nat}
    {children : List TreeNode} {piece : Piece} {mark : Mark Node} {expression : Option Node}
    (h : piece.IsSound ctx stop children) (hnode : .container mark expression ∈ piece.nodes) :
    ∃ opening closing, piece = .mustache opening closing expression := by
  cases piece with
  | blank | comment => exact absurd hnode List.not_mem_nil
  | text => exact nomatch List.mem_singleton.1 hnode
  | mustache opening closing inner =>
    obtain ⟨-, rfl⟩ := Node.container.inj (List.mem_singleton.1 hnode)
    exact ⟨opening, closing, rfl⟩
  | element child built =>
    obtain rfl := List.mem_singleton.1 hnode
    obtain ⟨name, rawName, tag, content, closing, heq, -⟩ := elementNode_eq_ok h.2.2.2
    exact nomatch heq

/-- A text is the node of a run of text. -/
theorem Piece.IsSound.text_of_templateText {ctx : Context} {stop : Nat}
    {children : List TreeNode} {piece : Piece} {mark : Mark Node} {value : String}
    (h : piece.IsSound ctx stop children) (hnode : .templateText mark value ∈ piece.nodes) :
    ∃ first last, piece = .text first last value := by
  cases piece with
  | blank | comment => exact absurd hnode List.not_mem_nil
  | mustache => exact nomatch List.mem_singleton.1 hnode
  | text first last inner =>
    obtain ⟨-, rfl⟩ := Node.templateText.inj (List.mem_singleton.1 hnode)
    exact ⟨first, last, rfl⟩
  | element child built =>
    obtain rfl := List.mem_singleton.1 hnode
    obtain ⟨name, rawName, tag, content, closing, heq, -⟩ := elementNode_eq_ok h.2.2.2
    exact nomatch heq

/-- The nodes of pieces that lie end to end part the content among them. -/
theorem Built.isPartition {ctx : Context} {stop start : Nat} {children : List TreeNode}
    {pieces : List Piece} (h : Built ctx stop start children pieces) :
    IsPartition ctx.source children start stop (pieces.flatMap Piece.nodes) where
  inside node hnode := by
    obtain ⟨piece, hpiece, hnode⟩ := List.mem_flatMap.1 hnode
    exact ⟨piece.start, piece.stop, (h.sound piece hpiece).covers hnode, h.tiles.bounds hpiece⟩
  ordered := by
    rw [List.pairwise_flatMap]
    refine ⟨fun piece hpiece => ?_, h.tiles.pairwise.imp_of_mem ?_⟩
    · cases piece <;> simp [Piece.nodes]
    · intro piece next hpiece hnext hle node hnode node' hnode' first last first' last' hcovers
        hcovers'
      obtain ⟨-, rfl⟩ := ((h.sound piece hpiece).covers hnode).eq hcovers
      obtain ⟨rfl, -⟩ := ((h.sound next hnext).covers hnode').eq hcovers'
      exact hle
  uncovered p b hstart hstop hbyte hfree := by
    obtain ⟨piece, hpiece, hfirst, hlast⟩ := h.tiles.exists_mem hstart hstop
    have hsound := h.sound piece hpiece
    have hleaves : ∀ node ∈ piece.nodes, False := fun node hnode =>
      hfree node (List.mem_flatMap.2 ⟨piece, hpiece, hnode⟩) _ _ (hsound.covers hnode)
        ⟨hfirst, hlast⟩
    cases piece with
    | blank first last => exact .inl (hsound p b hfirst hlast hbyte)
    | comment child =>
      refine .inr ⟨child, hsound.1, hsound.2.1, hsound.2.2, hfirst, hlast, ?_⟩
      intro hinside
      obtain ⟨mark, expression, first, last, hnode, hcovers, hle, hlt⟩ := hinside
      obtain ⟨other, hother, hnode⟩ := List.mem_flatMap.1 hnode
      obtain ⟨rfl, rfl⟩ := ((h.sound other hother).covers hnode).eq hcovers
      -- The mustache and the comment are two pieces, so one lies before the other.
      obtain ⟨opening, closing, rfl⟩ := (h.sound other hother).mustache_of_container hnode
      rcases eq_or_rel_of_pairwise h.tiles.pairwise hpiece hother with heq | hbefore | hafter
      · exact nomatch heq
      · have hwide : child.start ≤ p := hfirst
        have hnarrow : p < child.stop := hlast
        have hstop' : child.stop ≤ (Piece.mustache opening closing expression).start := hbefore
        omega
      · exact absurd hafter (Nat.not_le.2 hlt)
    | text | mustache | element => exact (hleaves _ (List.mem_singleton.2 rfl)).elim
  mustaches mark expression hnode := by
    obtain ⟨piece, hpiece, hnode⟩ := List.mem_flatMap.1 hnode
    obtain ⟨opening, closing, rfl⟩ := (h.sound piece hpiece).mustache_of_container hnode
    have hsound := h.sound _ hpiece
    exact ⟨opening, closing, hsound.covers hnode, hsound.2.2.1, hsound.1, hsound.2.1, hsound.2.2.2⟩
  texts mark value first last hnode hcovers := by
    obtain ⟨piece, hpiece, hnode⟩ := List.mem_flatMap.1 hnode
    obtain ⟨first', last', rfl⟩ := (h.sound piece hpiece).text_of_templateText hnode
    have hsound := h.sound _ hpiece
    obtain ⟨rfl, rfl⟩ := (hsound.covers hnode).eq hcovers
    exact hsound

/-- Without children that take part in it, content that stops before it starts is empty. -/
theorem contentNodes_eq_nil {ctx : Context} {stop cursor : Nat} {children : List TreeNode}
    (hstop : stop ≤ cursor) (hnone : ∀ child ∈ children, ¬ isContent child) :
    contentNodes ctx stop cursor children = .ok [] := by
  induction children with
  | nil =>
    rw [contentNodes, scan, dif_neg (Nat.not_lt.2 hstop)]
    rfl
  | cons child children ih =>
    obtain ⟨hchild, hchildren⟩ := List.forall_mem_cons.1 hnone
    rw [contentNodes_of_skipped fun hcontent => absurd hcontent hchild, ih hchildren]

/-- Template content is a partition of the source. The nodes that the content of an element becomes
lie in it one after the other, leave out nothing but blanks and comments outside mustaches, end each
mustache at the first closing braces, and keep opening braces in a text only where none close. -/
theorem contentNodes_isPartition {ctx : Context} {element : TreeNode} {start stop : Nat}
    {nodes : List Node} (hlaid : LaidOut start stop element.children)
    (h : contentNodes ctx stop start element.children = .ok nodes) :
    IsPartition ctx.source element.children start stop nodes := by
  by_cases hle : start ≤ stop
  · obtain ⟨pieces, hbuilt, rfl⟩ := exists_built_of_contentNodes h hlaid hle
    exact hbuilt.isPartition
  · have hnone : ∀ child ∈ element.children, ¬ isContent child := fun child hchild hcontent => by
      have := hlaid.inside child hchild hcontent
      omega
    rw [contentNodes_eq_nil (by omega) hnone] at h
    obtain rfl := Except.ok.inj h
    exact ⟨by simp, .nil, fun p b hstart hstop => by omega, by simp, by simp⟩

/-- Grammars that give every text a tree with syntax errors. -/
def erringGrammars : Grammars where
  installed _ := true
  tree? _ _ := some ⟨.mk "program" 0 0 true [] [], true⟩

/-- An element whose mustache holds the start of a tag, with a comment and an open mustache after
it. -/
def sampleContext : Context :=
  ⟨erringGrammars, Utf8.encodeString "<p>a\x7b\x7bb<i>\x7d\x7d<!--c--> \x7b\x7bd</p>", "javascript"⟩

/-- The tree of the sample. -/
def sampleElement : TreeNode :=
  .mk "element" 0 28 true
    [.mk "start_tag" 0 3 true [] [], .mk "text" 3 7 true [] [], .mk "element" 7 12 true [] [],
      .mk "comment" 12 20 true [] [], .mk "text" 21 24 true [] [],
      .mk "end_tag" 24 28 true [] []] []

/-- The nodes that the content of the sample becomes. -/
def sampleContent : List Node :=
  [.templateText { span := Span.bytes 3 4 } "a", .container { span := Span.bytes 4 12 } none,
    .templateText { span := Span.bytes 20 24 } " \x7b\x7bd"]

/-- The content of the sample is parted among its nodes. -/
theorem contentNodes_isPartition_sampleElement :
    LaidOut 3 24 sampleElement.children ∧
      contentNodes sampleContext 24 3 sampleElement.children = .ok sampleContent ∧
      IsPartition sampleContext.source sampleElement.children 3 24 sampleContent := by
  have hlaid : LaidOut 3 24 sampleElement.children := by decide
  have hcontent : contentNodes sampleContext 24 3 sampleElement.children = .ok sampleContent := by
    cbv
  exact ⟨hlaid, hcontent, contentNodes_isPartition hlaid hcontent⟩

end Component

end TranslationKeys
