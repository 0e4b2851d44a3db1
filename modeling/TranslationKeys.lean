import TranslationKeys.Command.Arguments
import TranslationKeys.Command.Run
import TranslationKeys.Component.Attribute
import TranslationKeys.Component.DirectiveKey
import TranslationKeys.Component.Parse
import TranslationKeys.Component.Template
import TranslationKeys.Configuration.Basic
import TranslationKeys.Configuration.Load
import TranslationKeys.Configuration.Shape
import TranslationKeys.Failure
import TranslationKeys.Files.Glob
import TranslationKeys.Files.Listing
import TranslationKeys.Files.Tree
import TranslationKeys.Html.Reference
import TranslationKeys.Html.ReferenceTable
import TranslationKeys.Main
import TranslationKeys.Memo.Arguments
import TranslationKeys.Memo.Basic
import TranslationKeys.Memo.LazyFile
import TranslationKeys.Moment
import TranslationKeys.Node.Basic
import TranslationKeys.Node.Keys
import TranslationKeys.Node.Link
import TranslationKeys.Node.Payload
import TranslationKeys.Node.VisitorKeys
import TranslationKeys.Node.Walk
import TranslationKeys.Number.Binary64
import TranslationKeys.Number.DecimalText
import TranslationKeys.Number.Integer
import TranslationKeys.Parser.Bundled
import TranslationKeys.Parser.Candidate
import TranslationKeys.Parser.Catalogue
import TranslationKeys.Parser.Options
import TranslationKeys.Parser.Result
import TranslationKeys.Path.Basic
import TranslationKeys.Path.Pattern
import TranslationKeys.Path.Wildcard
import TranslationKeys.Project
import TranslationKeys.Proofs.Callees
import TranslationKeys.Proofs.Causes
import TranslationKeys.Proofs.Component.Content
import TranslationKeys.Proofs.Component.Decoding
import TranslationKeys.Proofs.Component.DirectiveNames
import TranslationKeys.Proofs.Component.Elements
import TranslationKeys.Proofs.Component.Failures
import TranslationKeys.Proofs.Component.Fragments
import TranslationKeys.Proofs.Component.Parents
import TranslationKeys.Proofs.Component.Positions
import TranslationKeys.Proofs.Component.Slices
import TranslationKeys.Proofs.Configuration.Loading
import TranslationKeys.Proofs.Configuration.Overrides
import TranslationKeys.Proofs.Configuration.Sharing
import TranslationKeys.Proofs.Configuration.Stability
import TranslationKeys.Proofs.Files.Agreement
import TranslationKeys.Proofs.Files.Naming
import TranslationKeys.Proofs.Files.Places
import TranslationKeys.Proofs.Files.Relocation
import TranslationKeys.Proofs.Files.Walks
import TranslationKeys.Proofs.Html.References
import TranslationKeys.Proofs.Lookups
import TranslationKeys.Proofs.Memo.Call
import TranslationKeys.Proofs.Memo.Conflation
import TranslationKeys.Proofs.Memo.Faithfulness
import TranslationKeys.Proofs.Memo.Freezing
import TranslationKeys.Proofs.Memo.History
import TranslationKeys.Proofs.Memo.KeywordOrder
import TranslationKeys.Proofs.Memo.Lasting
import TranslationKeys.Proofs.Memo.Recency
import TranslationKeys.Proofs.Memo.StringArguments
import TranslationKeys.Proofs.Node.DirectiveLayouts
import TranslationKeys.Proofs.Node.Extraction
import TranslationKeys.Proofs.Node.Fallback
import TranslationKeys.Proofs.Node.FirstSeen
import TranslationKeys.Proofs.Node.KeySpellings
import TranslationKeys.Proofs.Node.KeysByTree
import TranslationKeys.Proofs.Node.Likeness
import TranslationKeys.Proofs.Node.Linking
import TranslationKeys.Proofs.Node.Nesting
import TranslationKeys.Proofs.Node.Origins
import TranslationKeys.Proofs.Node.Parents
import TranslationKeys.Proofs.Node.Preorder
import TranslationKeys.Proofs.Node.ReadCalls
import TranslationKeys.Proofs.Node.Reading
import TranslationKeys.Proofs.Node.Shape
import TranslationKeys.Proofs.Node.Termination
import TranslationKeys.Proofs.Node.WellTyped
import TranslationKeys.Proofs.Number.Canonical
import TranslationKeys.Proofs.Number.Positional
import TranslationKeys.Proofs.Parser.Plugins
import TranslationKeys.Proofs.Parser.Registrations
import TranslationKeys.Proofs.Parser.Suffixes
import TranslationKeys.Proofs.Path.DirectoryPatterns
import TranslationKeys.Proofs.Path.Texts
import TranslationKeys.Proofs.Path.Wildcards
import TranslationKeys.Proofs.Related
import TranslationKeys.Proofs.Script.Arguments
import TranslationKeys.Proofs.Script.Calls
import TranslationKeys.Proofs.Script.Conversion
import TranslationKeys.Proofs.Script.IntegerLiterals
import TranslationKeys.Proofs.Script.Positions
import TranslationKeys.Proofs.Script.Respelling
import TranslationKeys.Proofs.Script.Spellings
import TranslationKeys.Proofs.Text.Boundary
import TranslationKeys.Proofs.Text.Decoding
import TranslationKeys.Proofs.Text.Lowercase
import TranslationKeys.Proofs.Text.Order
import TranslationKeys.Proofs.Text.Splitting
import TranslationKeys.Proofs.Toml.Faults
import TranslationKeys.Proofs.Tree.Nodes
import TranslationKeys.Proofs.UsedKeys.ReadCounts
import TranslationKeys.Proofs.UsedKeys.Relocation
import TranslationKeys.Proofs.UsedKeys.Runs
import TranslationKeys.Proofs.UsedKeys.Transparency
import TranslationKeys.Proofs.UsedKeys.WorkAvoidance
import TranslationKeys.Proofs.Value.Equality
import TranslationKeys.Proofs.Value.Text
import TranslationKeys.Proofs.Value.WellFormed
import TranslationKeys.Script.Conversion
import TranslationKeys.Script.Escape
import TranslationKeys.Script.NumberLiteral
import TranslationKeys.Script.Parse
import TranslationKeys.Text.Blank
import TranslationKeys.Text.CaseTable
import TranslationKeys.Text.CodePoint
import TranslationKeys.Text.Digit
import TranslationKeys.Text.Lowercase
import TranslationKeys.Text.Printable
import TranslationKeys.Text.Quoted
import TranslationKeys.Text.Split
import TranslationKeys.Text.Utf8
import TranslationKeys.TextKeys
import TranslationKeys.Toml.Document
import TranslationKeys.Toml.Number
import TranslationKeys.Toml.Text
import TranslationKeys.Tree.Basic
import TranslationKeys.Tree.Grammar
import TranslationKeys.UsedKeys
import TranslationKeys.Value
