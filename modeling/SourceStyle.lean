import SourceStyle.Batch
import SourceStyle.Cache
import SourceStyle.Cache.Location
import SourceStyle.CommandLine.Arguments
import SourceStyle.CommandLine.Fields
import SourceStyle.CommandLine.Help
import SourceStyle.CommandLine.Reading
import SourceStyle.Digest
import SourceStyle.Failure
import SourceStyle.FileTree
import SourceStyle.FileTree.Temporary
import SourceStyle.Formatter
import SourceStyle.Host
import SourceStyle.Inference
import SourceStyle.Invocation
import SourceStyle.Linebreak
import SourceStyle.Listing
import SourceStyle.Listing.Walk
import SourceStyle.Main
import SourceStyle.Options
import SourceStyle.Options.Vocabulary
import SourceStyle.Path
import SourceStyle.Proofs.Adjacency
import SourceStyle.Proofs.Adjacency.Rules
import SourceStyle.Proofs.Backing
import SourceStyle.Proofs.Balance
import SourceStyle.Proofs.Beginnings
import SourceStyle.Proofs.BlankRuns
import SourceStyle.Proofs.Blocks
import SourceStyle.Proofs.ByteOrder
import SourceStyle.Proofs.CanonicalTokens
import SourceStyle.Proofs.Containment
import SourceStyle.Proofs.Copying
import SourceStyle.Proofs.Declarations
import SourceStyle.Proofs.Display
import SourceStyle.Proofs.Escapes
import SourceStyle.Proofs.Essence
import SourceStyle.Proofs.Essence.Preservation
import SourceStyle.Proofs.Essence.Rules
import SourceStyle.Proofs.Exchange
import SourceStyle.Proofs.Files.Listing
import SourceStyle.Proofs.Files.Paths
import SourceStyle.Proofs.Files.Places
import SourceStyle.Proofs.Files.Routes
import SourceStyle.Proofs.Files.Saving
import SourceStyle.Proofs.Files.Temporary
import SourceStyle.Proofs.Files.Walking
import SourceStyle.Proofs.Files.Writing
import SourceStyle.Proofs.FlagLine
import SourceStyle.Proofs.Headers
import SourceStyle.Proofs.History
import SourceStyle.Proofs.InPlace
import SourceStyle.Proofs.JoinedLines
import SourceStyle.Proofs.LetterCase
import SourceStyle.Proofs.Lexing
import SourceStyle.Proofs.LineEnds
import SourceStyle.Proofs.LineNumbers
import SourceStyle.Proofs.LinebreakChoice
import SourceStyle.Proofs.Literals
import SourceStyle.Proofs.Matching
import SourceStyle.Proofs.Mirror
import SourceStyle.Proofs.Modes
import SourceStyle.Proofs.Modes.Frames
import SourceStyle.Proofs.Modes.Piped
import SourceStyle.Proofs.Neighbours
import SourceStyle.Proofs.OptionKeys
import SourceStyle.Proofs.Placement
import SourceStyle.Proofs.Plurality
import SourceStyle.Proofs.RangeSpacing
import SourceStyle.Proofs.ReadBack
import SourceStyle.Proofs.Readable
import SourceStyle.Proofs.Reindentation
import SourceStyle.Proofs.Reindentation.Alignment
import SourceStyle.Proofs.Reindentation.Chunks
import SourceStyle.Proofs.Reindentation.Directives
import SourceStyle.Proofs.Reindentation.Lines
import SourceStyle.Proofs.Reindentation.OpenLines
import SourceStyle.Proofs.Repetition
import SourceStyle.Proofs.Repetition.BlankLines
import SourceStyle.Proofs.Repetition.Braces
import SourceStyle.Proofs.Repetition.DeclarationSpacing
import SourceStyle.Proofs.Repetition.Marks
import SourceStyle.Proofs.Repetition.Ranges
import SourceStyle.Proofs.Repetition.Scopes
import SourceStyle.Proofs.Repetition.Spelling
import SourceStyle.Proofs.Repetition.VoidTypes
import SourceStyle.Proofs.Respelling
import SourceStyle.Proofs.Respelling.Indentation
import SourceStyle.Proofs.Respelling.Text
import SourceStyle.Proofs.Scanning
import SourceStyle.Proofs.ScopeEdges
import SourceStyle.Proofs.Sessions
import SourceStyle.Proofs.Spaces
import SourceStyle.Proofs.Statements
import SourceStyle.Proofs.Terminators
import SourceStyle.Proofs.Turns
import SourceStyle.Proofs.Upkeep
import SourceStyle.Proofs.Vocabulary
import SourceStyle.Proofs.Votes
import SourceStyle.Proofs.Watch
import SourceStyle.Rule
import SourceStyle.Rule.BlankLines
import SourceStyle.Rule.Braces
import SourceStyle.Rule.DeclarationSpacing
import SourceStyle.Rule.Header
import SourceStyle.Rule.HexLiterals
import SourceStyle.Rule.Indentation
import SourceStyle.Rule.Linebreaks
import SourceStyle.Rule.Ranges
import SourceStyle.Rule.Semicolons
import SourceStyle.Rule.TrailingCommas
import SourceStyle.Rule.TrailingSpace
import SourceStyle.Rule.VoidTypes
import SourceStyle.StandardInput
import SourceStyle.StandardInput.Exchange
import SourceStyle.Text.Alphabetic
import SourceStyle.Text.Blank
import SourceStyle.Text.CaseTables
import SourceStyle.Text.CodePoints
import SourceStyle.Text.LetterCase
import SourceStyle.Text.Numeric
import SourceStyle.Text.Utf8
import SourceStyle.Token
import SourceStyle.Token.Fault
import SourceStyle.Token.Lexer
import SourceStyle.Token.Scope
import SourceStyle.Yaml.Ambiguity
import SourceStyle.Yaml.BlockScalar
import SourceStyle.Yaml.Layout
import SourceStyle.Yaml.Node
import SourceStyle.Yaml.Node.Reading
import SourceStyle.Yaml.Property
import SourceStyle.Yaml.Scalar
import SourceStyle.Yaml.Spelling
import SourceStyle.Yaml.Symbol
import SourceStyle.Yaml.Symbol.Reading
