import ElementQuery.CommandLine.Options
import ElementQuery.CommandLine.Run
import ElementQuery.Document.Attributes
import ElementQuery.Document.Basic
import ElementQuery.Document.Edit
import ElementQuery.Document.Order
import ElementQuery.Document.Siblings
import ElementQuery.Document.Traversal
import ElementQuery.Engine.Basic
import ElementQuery.Engine.Host
import ElementQuery.Group.Basic
import ElementQuery.Group.Cache
import ElementQuery.Group.PathText
import ElementQuery.Group.Reader
import ElementQuery.Group.Record
import ElementQuery.Group.Walk
import ElementQuery.JsonValue
import ElementQuery.Main
import ElementQuery.Markup.Loader
import ElementQuery.Markup.Piece
import ElementQuery.Markup.Reference
import ElementQuery.Markup.Writer
import ElementQuery.Number.Binary64
import ElementQuery.Number.Reading
import ElementQuery.Number.Shortest
import ElementQuery.Path.Comparison
import ElementQuery.Path.Evaluation
import ElementQuery.Path.Expression
import ElementQuery.Path.Function
import ElementQuery.Path.Lexer
import ElementQuery.Path.Navigation
import ElementQuery.Path.Parser
import ElementQuery.Path.Token
import ElementQuery.Path.Value
import ElementQuery.Progression
import ElementQuery.Proofs.Document.AttributeNames
import ElementQuery.Proofs.Document.Edits
import ElementQuery.Proofs.Document.Links
import ElementQuery.Proofs.Document.Preorder
import ElementQuery.Proofs.Document.Reachable
import ElementQuery.Proofs.Document.Register
import ElementQuery.Proofs.Document.TreeOrder
import ElementQuery.Proofs.Engine.FirstMatch
import ElementQuery.Proofs.Group.Agreement
import ElementQuery.Proofs.Group.Demands
import ElementQuery.Proofs.Group.Following
import ElementQuery.Proofs.Group.Positions
import ElementQuery.Proofs.Group.Reading
import ElementQuery.Proofs.Group.Trail
import ElementQuery.Proofs.Number.Whole
import ElementQuery.Proofs.Path.Calls
import ElementQuery.Proofs.Path.Counting
import ElementQuery.Proofs.Path.Grammar
import ElementQuery.Proofs.Path.Meaning
import ElementQuery.Proofs.Path.Phrase
import ElementQuery.Proofs.Path.Spelling
import ElementQuery.Proofs.Text.Search
import ElementQuery.Selector.Basic
import ElementQuery.Selector.Matching
import ElementQuery.Selector.Reader
import ElementQuery.Text.Blank
import ElementQuery.Text.Integer
import ElementQuery.Text.Letter
import ElementQuery.Text.Quoted
import ElementQuery.Text.Search
import ElementQuery.Warning
import ElementQuery.Proofs.Document.Trees
import ElementQuery.Proofs.Path.NodeOrder
import ElementQuery.Proofs.Markup.Forest
import ElementQuery.Proofs.Markup.Growth
import ElementQuery.Proofs.Markup.Escaping
import ElementQuery.Proofs.Markup.Loadable
import ElementQuery.Proofs.Markup.Pieces
import ElementQuery.Proofs.Markup.Rereading
import ElementQuery.Proofs.Common.Language
import ElementQuery.Proofs.Common.Counting
import ElementQuery.Proofs.Common.StrictReading
import ElementQuery.Proofs.Common.Words
import ElementQuery.Proofs.Common.LenientReading
import ElementQuery.Proofs.Common.Meaning
import ElementQuery.Proofs.Common.Agreement
import ElementQuery.Proofs.Selector.Chain
import ElementQuery.Proofs.Document.Appended
import ElementQuery.Proofs.Number.Order
import ElementQuery.Proofs.Path.Endings
import ElementQuery.Proofs.Path.Tests
import ElementQuery.Proofs.Group.Acceptance
import ElementQuery.Proofs.Group.Filtering
import ElementQuery.Proofs.Group.Distinct
import ElementQuery.Proofs.Document.Branches
import ElementQuery.Proofs.Path.Axes
import ElementQuery.Proofs.Group.Ordered
import ElementQuery.Proofs.Engine.TagPaths
import ElementQuery.Proofs.Markup.RawText
import ElementQuery.Proofs.Document.Shared
import ElementQuery.Proofs.Group.Confinement
import ElementQuery.Proofs.Group.Locality
import ElementQuery.Proofs.Group.Alternatives
import ElementQuery.Proofs.Group.Classes
import ElementQuery.Proofs.Document.Comparison
import ElementQuery.Proofs.Document.Iteration
import ElementQuery.Proofs.Document.Moves
import ElementQuery.Proofs.Text.Integers
import ElementQuery.Proofs.Selector.Progressions
import ElementQuery.Proofs.Common.Arguments
import ElementQuery.Proofs.Path.Integers
import ElementQuery.Proofs.Group.Progressions
import ElementQuery.Proofs.Markup.References
import ElementQuery.Proofs.Group.Literals
import ElementQuery.Proofs.Group.Normalization
import ElementQuery.Proofs.Path.Conjunction
import ElementQuery.Proofs.Path.Shorthand
import ElementQuery.Proofs.Path.Signs
import ElementQuery.Proofs.Path.Precedence
import ElementQuery.Proofs.Results
import ElementQuery.Proofs.Selector.Continuation
import ElementQuery.Proofs.Selector.Composition
import ElementQuery.Proofs.Path.Unions
import ElementQuery.Proofs.Markup.Shape
import ElementQuery.Proofs.Selector.Siblings
import ElementQuery.Proofs.Path.Cursor
import ElementQuery.Proofs.Document.AttributeHistory
import ElementQuery.Proofs.Document.Positions
import ElementQuery.Proofs.Common.Positions
import ElementQuery.Proofs.Group.Cache
