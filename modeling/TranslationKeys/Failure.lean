/-!
# Failures

Why a step of key collection can fail. Each constructor is a cause; `Failure.message?` holds the
wording of those causes that are reported with one.
-/

namespace TranslationKeys

/-- One step of the way from a document to a value inside it. -/
inductive LocationStep where
  /-- A field or key. -/
  | name (s : String)
  /-- A position in a list. -/
  | index (i : Int)
  deriving DecidableEq, Repr

/-- What is wrong with a value in a configuration. -/
inductive ShapeFault where
  /-- A required field is missing. -/
  | missing
  /-- A string was expected. -/
  | notString
  /-- A list was expected. -/
  | notList
  /-- A sequence of fixed items was expected. -/
  | notTuple
  /-- A table was expected. -/
  | notTable
  /-- A table with known fields was expected. -/
  | notRecord
  /-- There is no field of this name. -/
  | noSuchField
  /-- A string was expected and the bytes are no UTF-8. -/
  | notUnicode
  /-- A value whose text is needed is too long to be written. -/
  | unwritable
  deriving DecidableEq, Repr

/-- A fault of a configuration, with the place of the offending value. -/
structure ShapeError where
  /-- The way from the root of the configuration to the value. -/
  location : List LocationStep
  /-- What is wrong with it. -/
  fault : ShapeFault
  deriving DecidableEq, Repr

/-- The causes of failure. -/
inductive Failure where
  /-- A script has syntax errors under a grammar. -/
  | syntaxErrors (grammar : String)
  /-- A grammar is not installed. -/
  | grammarUnavailable (grammar : String)
  /-- No syntax tree is known for a text. -/
  | treeUnavailable
  /-- A parser returned something that is no syntax tree. -/
  | unsupportedTree (kind : String)
  /-- A parser returned something that is no parse result. -/
  | unsupportedResult (kind : String)
  /-- Visitor keys are no mapping. -/
  | visitorKeysNotMapping
  /-- The visitor keys of some kind are no sequence of names. -/
  | visitorKeysNotNames
  /-- A directive is named by a node that has no name. -/
  | namelessDirective
  /-- A walk leads back up and never ends. -/
  | endlessWalk
  /-- An integer has too many digits to be read or written. -/
  | numeralTooLong
  /-- An escape names a number that is far too large for a code point. -/
  | codePointOverflow
  /-- A path was expected. -/
  | notAPath
  /-- Bytes that are not UTF-8. -/
  | notUtf8
  /-- A file does not exist. -/
  | fileNotFound
  /-- A directory was found where a file was expected. -/
  | isDirectory
  /-- A file was found where a directory was expected. -/
  | notDirectory
  /-- A name or a path is longer than names of files can be. -/
  | nameTooLong
  /-- A path holds a NUL character. -/
  | nulInPath
  /-- The home directory of a user is not known. -/
  | homeUnknown
  /-- An argument has no hashable form. -/
  | unhashable (label : String)
  /-- An argument is given twice. -/
  | repeatedArgument
  /-- A value that should be gone through has no parts. -/
  | notIterable
  /-- An entry is no pair of a key and a value. -/
  | notPair
  /-- A key of a mapping is not hashable. -/
  | unhashableKey
  /-- A configuration file is not a document of its format. -/
  | configUnreadable (file : String)
  /-- A configuration is not a table. -/
  | configNotTable (file : String)
  /-- A configuration file holds values of the wrong shape. -/
  | configInvalid (file : String) (errors : List ShapeError)
  /-- A configuration value has the wrong shape. -/
  | invalid (errors : List ShapeError)
  /-- A list has no such position. -/
  | noSuchIndex
  /-- A key cannot be printed because it holds a surrogate. -/
  | unprintable
  /-- A collaborator failed with an error of its own. -/
  | raised (name : String) (text : Option String)
  deriving DecidableEq, Repr

namespace Failure

/-- The wording of a failure that is reported in words. -/
def message? : Failure → Option String
  | syntaxErrors grammar => some ("Syntax error in " ++ grammar ++ " source")
  | grammarUnavailable grammar =>
    some ("Tree-sitter grammar '" ++ grammar ++ "' is not installed")
  | unsupportedTree kind => some ("Unsupported AST payload of type " ++ kind)
  | unsupportedResult kind => some ("Unsupported parse result of type " ++ kind)
  | unhashable label => some (label ++ " must be hashable to participate in caching")
  | configUnreadable file => some ("Failed to parse " ++ file)
  | configNotTable file => some ("Configuration in " ++ file ++ " must be a table")
  | configInvalid file _ => some ("Invalid configuration in " ++ file)
  | raised _ text => text
  | _ => none

end Failure

end TranslationKeys
