import TranslationKeys.Failure
import TranslationKeys.Text.Utf8

/-!
# Concrete syntax trees

What a grammar makes of a source: a tree of nodes with a kind, a byte span, children and named
fields that point to some of the children. Punctuation is unnamed. A node's text is the part of
the encoded source that it spans.
-/

namespace TranslationKeys

/-- A node of a concrete syntax tree. -/
inductive TreeNode where
  /-- A node with its kind, span, and whether it is named; a field is a name with the position of a
  child. -/
  | mk (kind : String) (start stop : Nat) (named : Bool) (children : List TreeNode)
      (fields : List (String × Nat))
  deriving Repr, Inhabited

namespace TreeNode

/-- The kind of a node. -/
def kind : TreeNode → String
  | mk kind _ _ _ _ _ => kind

/-- Where a node starts, in bytes. -/
def start : TreeNode → Nat
  | mk _ start _ _ _ _ => start

/-- Where a node stops, in bytes. -/
def stop : TreeNode → Nat
  | mk _ _ stop _ _ _ => stop

/-- Whether a node is named. -/
def named : TreeNode → Bool
  | mk _ _ _ named _ _ => named

/-- The children of a node. -/
def children : TreeNode → List TreeNode
  | mk _ _ _ _ children _ => children

/-- The fields of a node. -/
def fields : TreeNode → List (String × Nat)
  | mk _ _ _ _ _ fields => fields

/-- The children that are named. -/
def namedChildren (n : TreeNode) : List TreeNode :=
  n.children.filter named

/-- The first named child of one of the given kinds. -/
def firstOfKinds? (n : TreeNode) (kinds : List String) : Option TreeNode :=
  n.namedChildren.find? fun child => kinds.contains child.kind

/-- The bytes that a node spans. -/
def bytes (source : List UInt8) (n : TreeNode) : List UInt8 :=
  Utf8.slice source n.start n.stop

end TreeNode

/-- Bytes as text. -/
def decodeBytes (bytes : List UInt8) : Except Failure (List Char) :=
  match Utf8.decode? bytes with
  | some cs => .ok cs
  | none => .error .notUtf8

/-- The text that a node spans. -/
def TreeNode.text (source : List UInt8) (n : TreeNode) : Except Failure (List Char) :=
  decodeBytes (n.bytes source)

/-- A tree together with whether the source had syntax errors. -/
structure SyntaxTree where
  /-- The root of the tree. -/
  root : TreeNode
  /-- Whether the grammar had to recover from errors. -/
  hasError : Bool
  deriving Repr, Inhabited

end TranslationKeys
