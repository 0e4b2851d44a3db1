import TranslationKeys.Node.Basic
import TranslationKeys.Text.Split

/-!
# Directive names

An attribute name such as `v-on:click.stop` is a directive with a name, an argument and modifiers.
The shorthands `:`, `.`, `@` and `#` stand for the long forms of `bind`, `on` and `slot`; the point
adds a modifier of its own. All other names belong to plain attributes.
-/

namespace TranslationKeys

/-- The parts of a directive's name. -/
structure Directive where
  /-- The name without its marker. -/
  name : List Char
  /-- The argument, if it is not empty. -/
  argument : Option (List Char)
  /-- The modifiers that are not empty, in order. -/
  modifiers : List (List Char)
  deriving DecidableEq, Repr

namespace Directive

/-- The modifier that a leading point adds. -/
def propModifier : List Char := "prop".toList

/-- A directive with the empty argument and the empty modifiers left out. -/
def ofParts (name argument : List Char) (modifiers : List (List Char)) : Directive :=
  ⟨name, if argument.isEmpty then none else some argument, modifiers.filter (!·.isEmpty)⟩

/-- The directive with a name whose argument and modifiers are written out, and further
modifiers. -/
def ofRest (name rest : List Char) (more : List (List Char)) : Directive :=
  match splitAtEach '.' rest with
  | [] => ofParts name [] more
  | argument :: modifiers => ofParts name argument (modifiers ++ more)

/-- The directive of a long form, given what follows its marker. A colon divides the name from the
argument; without one there is no argument. -/
def ofLongForm (body : List Char) : Directive :=
  match body.span (· != ':') with
  | (name, _ :: rest) => ofRest name rest []
  | (whole, []) =>
    match splitAtEach '.' whole with
    | [] => ofParts [] [] []
    | name :: modifiers => ofParts name [] modifiers

/-- The directive an attribute name stands for, if it stands for one. -/
def parse? : List Char → Option Directive
  | 'v' :: '-' :: body => some (ofLongForm body)
  | ':' :: rest => some (ofRest "bind".toList rest [])
  | '.' :: rest => some (ofRest "bind".toList rest [propModifier])
  | '@' :: rest => some (ofRest "on".toList rest [])
  | '#' :: rest => some (ofRest "slot".toList rest [])
  | _ => none

/-- A part of a name as a node. -/
def partNode (part : List Char) : Node :=
  .templateName {} (String.ofList part) (String.ofList part)

/-- A directive's name as a node; the whole attribute name is kept as its raw form. -/
def keyNode (raw : String) (d : Directive) : Node :=
  .directiveKey {} (.templateName {} (String.ofList d.name) raw) (d.argument.map partNode)
    (d.modifiers.map partNode)

end Directive

end TranslationKeys
