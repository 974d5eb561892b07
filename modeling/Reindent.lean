import Reindent.Command.Options
import Reindent.Command.Run
import Reindent.Css.Split
import Reindent.Css.Walk
import Reindent.Decimal.Binary64
import Reindent.Decimal.Notation
import Reindent.Decimal.Shortest
import Reindent.Engine
import Reindent.Error
import Reindent.Files.Language
import Reindent.Files.Path
import Reindent.Files.Resolve
import Reindent.Files.Source
import Reindent.Files.Store
import Reindent.Indent
import Reindent.Json.Pretty
import Reindent.Json.Reader
import Reindent.Json.Value
import Reindent.Json.Writer
import Reindent.Kind
import Reindent.Limits
import Reindent.Main
import Reindent.Marker
import Reindent.Minify.Css
import Reindent.Minify.Json
import Reindent.Minify.Settle
import Reindent.Minify.Sql
import Reindent.Minify.Xml
import Reindent.Note
import Reindent.Proofs.Command.Frame
import Reindent.Proofs.Css.Boundaries
import Reindent.Proofs.Css.Braces
import Reindent.Proofs.Css.Comments
import Reindent.Proofs.Css.Settling
import Reindent.Proofs.Engine
import Reindent.Proofs.Files.Rewrite
import Reindent.Proofs.Files.Store
import Reindent.Proofs.Indent
import Reindent.Proofs.Ink
import Reindent.Proofs.Json.Acceptance
import Reindent.Proofs.Json.Documents
import Reindent.Proofs.Json.Literals
import Reindent.Proofs.Json.Minified
import Reindent.Proofs.Json.Reading
import Reindent.Proofs.Json.RoundTrip
import Reindent.Proofs.Json.Rows
import Reindent.Proofs.Json.Scalars
import Reindent.Proofs.Json.Shape
import Reindent.Proofs.Json.Soundness
import Reindent.Proofs.Json.Stops
import Reindent.Proofs.MarkChoice
import Reindent.Proofs.MarkSearch
import Reindent.Proofs.Marker
import Reindent.Proofs.Minify.Content
import Reindent.Proofs.Minify.NormalForm
import Reindent.Proofs.Minify.Quotes
import Reindent.Proofs.Minify.Settle
import Reindent.Proofs.Minify.Sql
import Reindent.Proofs.Minify.Thinning
import Reindent.Proofs.Minify.Tightness
import Reindent.Proofs.Outcomes
import Reindent.Proofs.Overflow
import Reindent.Proofs.Settings.Nearest
import Reindent.Proofs.Settings.Precedence
import Reindent.Proofs.Settings.Search
import Reindent.Proofs.Settings.Validity
import Reindent.Proofs.Sql.Content
import Reindent.Proofs.Sql.Counters
import Reindent.Proofs.Sql.Depth
import Reindent.Proofs.Sql.Fragments
import Reindent.Proofs.Sql.Joins
import Reindent.Proofs.Sql.Keywords
import Reindent.Proofs.Sql.Opacity
import Reindent.Proofs.Sql.Quotes
import Reindent.Proofs.Sql.Rules
import Reindent.Proofs.Sql.TornJoins
import Reindent.Proofs.Sql.Words
import Reindent.Proofs.Sql.Written
import Reindent.Proofs.Text.Blanks
import Reindent.Proofs.Text.Cuts
import Reindent.Proofs.Text.Letters
import Reindent.Proofs.Text.LowerCase
import Reindent.Proofs.Text.Patterns
import Reindent.Proofs.Text.Renaming
import Reindent.Proofs.Text.Rewriting
import Reindent.Proofs.Text.Tokens
import Reindent.Proofs.Text.Words
import Reindent.Proofs.Walks
import Reindent.Proofs.Xml.Accounting
import Reindent.Proofs.Xml.Balance
import Reindent.Proofs.Xml.Boundaries
import Reindent.Proofs.Xml.Comments
import Reindent.Proofs.Xml.Endings
import Reindent.Proofs.Xml.Fragments
import Reindent.Proofs.Xml.Gaps
import Reindent.Proofs.Xml.Layout
import Reindent.Proofs.Xml.Loose
import Reindent.Proofs.Xml.Minified
import Reindent.Proofs.Xml.RoundTrip
import Reindent.Proofs.Xml.Tags
import Reindent.Proofs.Xml.Tree
import Reindent.Settings.Basic
import Reindent.Settings.Search
import Reindent.Settings.Value
import Reindent.Sql.Rule
import Reindent.Sql.Split
import Reindent.Sql.Walk
import Reindent.Text.Blank
import Reindent.Text.Caseless
import Reindent.Text.Cut
import Reindent.Text.Digit
import Reindent.Text.Integer
import Reindent.Text.LowerCase
import Reindent.Text.Pattern
import Reindent.Text.Printable
import Reindent.Text.Quoted
import Reindent.Text.Range
import Reindent.Text.Symbol
import Reindent.Text.Utf8
import Reindent.Text.Word
import Reindent.Toml.Reader
import Reindent.Toml.Scan
import Reindent.Transition
import Reindent.Xml.Kind
import Reindent.Xml.Split
import Reindent.Xml.Walk
