import TranslationKeys.Node.VisitorKeys

/-!
# Walking a tree

A walk goes through a tree depth first and meets every node twice: before and after its children.
It keeps a stack of what is still to do instead of recursing. `Place.visits` says the same by
recursion, and `Node.visitCount` is the number of steps the stack needs.

Visitor keys come from parsers and may name any field, the link to the parent included. A walk that
follows such a link to the holder comes back to where it was and never ends; `Walk.visits?` then
yields nothing. Walks that only go down, or to parents given by hand, end after `visitCount` steps.
-/

namespace TranslationKeys

/-- The field of the parent link. -/
def parentField : String := "parent"

namespace Node

/-- The nodes that a field leads to, the holder of the node apart. -/
def reach (n : Node) (key : String) : List Node :=
  if key == parentField then n.givenParent?.toList else n.field key

/-- The nodes inside a node that a walk enters, in order. -/
def heldNodes (keys : VisitorKeys) (n : Node) : List Node :=
  (n.entryKeys keys).flatMap n.reach

/-- A node that a walk enters from another one is smaller than it. -/
theorem sizeOf_lt_of_mem_heldNodes {keys : VisitorKeys} {n m : Node} (h : m ∈ heldNodes keys n) :
    sizeOf m < sizeOf n := by
  unfold heldNodes at h
  obtain ⟨key, _, hm⟩ := List.mem_flatMap.1 h
  unfold reach at hm
  split at hm
  · exact sizeOf_lt_of_givenParent? (Option.mem_toList.1 hm)
  · exact sizeOf_lt_of_mem_field hm

/-- The number of visits of a walk that never goes back to a holder. -/
def visitCount (keys : VisitorKeys) (n : Node) : Nat :=
  2 + ((heldNodes keys n).attach.map fun ⟨m, _⟩ => visitCount keys m).foldr (· + ·) 0
termination_by sizeOf n
decreasing_by exact sizeOf_lt_of_mem_heldNodes (by assumption)

end Node

/-- A node together with the nodes that hold it, innermost first. -/
structure Place where
  /-- The node at this place. -/
  node : Node
  /-- The nodes that hold it. -/
  above : List Node
  deriving Repr

namespace Place

/-- The place of a root. -/
def root (n : Node) : Place := ⟨n, []⟩

/-- The place of a node held by this one. -/
def down (p : Place) (n : Node) : Place := ⟨n, p.node :: p.above⟩

/-- The place that the parent link leads to. -/
def parent? (p : Place) : Option Place :=
  match p.node.mark.parent, p.above with
  | .given n, _ => some (root n)
  | .holder, holder :: above => some ⟨holder, above⟩
  | _, _ => none

/-- The places that a field leads to. -/
def through (p : Place) (key : String) : List Place :=
  if key == parentField then p.parent?.toList else (p.node.field key).map p.down

/-- The places inside this one that a walk enters, in order: those of its holder are left out. -/
def inside (keys : VisitorKeys) (p : Place) : List Place :=
  (p.node.entryKeys keys).flatMap fun key =>
    if key == parentField then p.node.givenParent?.toList.map root
    else (p.node.field key).map p.down

/-- The node at a place inside another one is smaller than the node there. -/
theorem sizeOf_node_lt_of_mem_inside {keys : VisitorKeys} {p q : Place} (h : q ∈ p.inside keys) :
    sizeOf q.node < sizeOf p.node := by
  unfold inside at h
  obtain ⟨key, _, hq⟩ := List.mem_flatMap.1 h
  split at hq
  · obtain ⟨n, hn, rfl⟩ := List.mem_map.1 hq
    exact Node.sizeOf_lt_of_givenParent? (Option.mem_toList.1 hn)
  · obtain ⟨n, hn, rfl⟩ := List.mem_map.1 hq
    exact Node.sizeOf_lt_of_mem_field hn

/-- The places a walk enters from this one, in order. -/
def children (keys : VisitorKeys) (p : Place) : List Place :=
  (p.node.entryKeys keys).flatMap p.through

end Place

/-- What happens at one step of a walk. -/
inductive Visit where
  /-- A node is met before its children. -/
  | enter (place : Place)
  /-- A node is met after its children. -/
  | leave (place : Place)
  deriving Repr

namespace Visit

/-- The place that is visited. -/
def place : Visit → Place
  | enter p | leave p => p

/-- The places that are entered, in order. -/
def entered (visits : List Visit) : List Place :=
  visits.filterMap fun
    | enter p => some p
    | leave _ => none

end Visit

namespace Place

/-- The visits of a walk that never goes back to a holder, by recursion: enter the place, visit
the places inside it, leave it. -/
def visits (keys : VisitorKeys) (p : Place) : List Visit :=
  .enter p :: ((p.inside keys).attach.flatMap fun ⟨q, _⟩ => visits keys q) ++ [.leave p]
termination_by sizeOf p.node
decreasing_by exact sizeOf_node_lt_of_mem_inside (by assumption)

end Place

namespace Walk

/-- Works a stack off, entering the children of a place before leaving it, for at most `fuel`
visits. -/
def run (keys : VisitorKeys) : Nat → List Visit → Option (List Visit)
  | _, [] => some []
  | 0, _ :: _ => none
  | fuel + 1, .leave p :: rest => do
    let visits ← run keys fuel rest
    return .leave p :: visits
  | fuel + 1, .enter p :: rest => do
    let visits ← run keys fuel ((p.children keys).map .enter ++ .leave p :: rest)
    return .enter p :: visits

/-- The visits of a walk from a place, if it ends. -/
def visits? (keys : VisitorKeys) (p : Place) : Option (List Visit) :=
  run keys (p.node.visitCount keys) [.enter p]

/-- Why a walk cannot go on from a place when a value is used as its visitor keys. Generic nodes
are entered without looking at the keys. -/
def fault? (v : Value) (p : Place) : Option Failure :=
  if p.node.isGeneric then none else VisitorKeys.fault? v p.node.tag

/-- The visits of a walk that uses a value as its visitor keys. It fails at the first node whose
kind the value has no usable keys for. -/
def visitsGiven (v : Value) (p : Place) : Except Failure (List Visit) :=
  match visits? (VisitorKeys.asGiven v) p with
  | none => .error .endlessWalk
  | some visits =>
    match (Visit.entered visits).findSome? (fault? v) with
    | some e => .error e
    | none => .ok visits

/-- Works a stack of places off, noting each before its children, for at most `fuel` places. -/
def runPlaces (keys : VisitorKeys) : Nat → List Place → Option (List Place)
  | _, [] => some []
  | 0, _ :: _ => none
  | fuel + 1, p :: rest => do
    let places ← runPlaces keys fuel (p.children keys ++ rest)
    return p :: places

/-- The places of a walk in the order they are entered, if it ends. -/
def places? (keys : VisitorKeys) (p : Place) : Option (List Place) :=
  runPlaces keys (p.node.visitCount keys) [p]

end Walk

end TranslationKeys
