import TranslationKeys.Node.Link
import TranslationKeys.Script.Conversion
import TranslationKeys.Text.Blank
import TranslationKeys.Tree.Grammar

/-!
# Parsing scripts

A whole script, a single expression or a list of statements is parsed under a grammar and converted
into linked nodes. An expression is parsed between parentheses, so that an object literal is not
taken for a block; its spans are shifted back by one. Only a whole script fails on syntax errors.
-/

namespace TranslationKeys.Script

/-- The program of a script that starts at a byte offset of its document. -/
def parse (g : Grammars) (grammar text : String) (offset : Int) : Except Failure Node := do
  let tree ← g.parse grammar text
  if tree.hasError then throw (.syntaxErrors grammar)
  let body ← (convert (Utf8.encodeString text) offset tree.root).inner
  return (Node.program { span := spanOf offset tree.root } body none).linkBelow VisitorKeys.default

/-- The parenthesised expression that is the only content of a tree. -/
def onlyExpression? (root : TreeNode) : Option TreeNode :=
  match root.namedChildren with
  | [statement] =>
    if statement.kind == "expression_statement" then
      match statement.namedChildren with
      | [wrapper] => if wrapper.kind == "parenthesized_expression" then some wrapper else none
      | _ => none
    else none
  | _ => none

/-- The text of an expression as it is handed to a grammar. -/
def parenthesised (text : String) : String := "(" ++ text ++ ")"

/-- The node of a single expression, if the text is one. -/
def expression (g : Grammars) (grammar text : String) (offset : Int) :
    Except Failure (Option Node) := do
  if text.toList.all isBlank then return none
  let wrapped := parenthesised text
  let tree ← g.parse grammar wrapped
  if tree.hasError then return none
  match onlyExpression? tree.root with
  | none => return none
  | some wrapper =>
    let expression ← (convert (Utf8.encodeString wrapped) (offset - 1) wrapper).node
    return expression.map (Node.linkBelow VisitorKeys.default)

/-- The nodes of a list of statements, unless there are syntax errors. -/
def statements (g : Grammars) (grammar text : String) (offset : Int) :
    Except Failure (Option (List Node)) := do
  let tree ← g.parse grammar text
  if tree.hasError then return none
  let statements ← (convert (Utf8.encodeString text) offset tree.root).inner
  return some (statements.map (Node.linkBelow VisitorKeys.default))

end TranslationKeys.Script
