import Kestrel.CommandLine.Console
import Kestrel.CommandLine.Options
import Kestrel.CommandLine.Run
import Kestrel.Diagnosis.Excerpt
import Kestrel.Diagnosis.Hint
import Kestrel.Diagnosis.ParseError
import Kestrel.Eval.Basic
import Kestrel.Eval.Node
import Kestrel.Failure
import Kestrel.Files.Basic
import Kestrel.Files.Tree
import Kestrel.Inspect
import Kestrel.Main
import Kestrel.Proofs.CommandLine.Arguments
import Kestrel.Proofs.CommandLine.Dialogue
import Kestrel.Proofs.CommandLine.Endings
import Kestrel.Proofs.CommandLine.Listing
import Kestrel.Proofs.CommandLine.Told
import Kestrel.Proofs.Contract.Basic
import Kestrel.Proofs.Contract.Expression
import Kestrel.Proofs.Cutting.Leftmost
import Kestrel.Proofs.Descent.Ends
import Kestrel.Proofs.Descent.Part
import Kestrel.Proofs.Diagnosis.Excerpt
import Kestrel.Proofs.Diagnosis.Hint
import Kestrel.Proofs.Diagnosis.Lines
import Kestrel.Proofs.Diagnosis.Place
import Kestrel.Proofs.Failing.Raises
import Kestrel.Proofs.Formulas.Order
import Kestrel.Proofs.Formulas.Pieces
import Kestrel.Proofs.Formulas.Reading
import Kestrel.Proofs.Formulas.Text
import Kestrel.Proofs.Grammar.Basic
import Kestrel.Proofs.Grammar.Expression
import Kestrel.Proofs.Grammar.Operand
import Kestrel.Proofs.Grammar.Parses
import Kestrel.Proofs.Grammar.Path
import Kestrel.Proofs.Grammar.Program
import Kestrel.Proofs.Grammar.Statement
import Kestrel.Proofs.Growth.Change
import Kestrel.Proofs.Growth.Extension
import Kestrel.Proofs.Joining.Extends
import Kestrel.Proofs.Joining.Kind
import Kestrel.Proofs.Joining.Program
import Kestrel.Proofs.Joining.Session
import Kestrel.Proofs.Joining.Single
import Kestrel.Proofs.Joining.Statement
import Kestrel.Proofs.Joining.Token
import Kestrel.Proofs.Joining.Zone
import Kestrel.Proofs.Layout.Alike
import Kestrel.Proofs.Layout.Program
import Kestrel.Proofs.Layout.Relaid
import Kestrel.Proofs.Literals.Expression
import Kestrel.Proofs.Literals.Program
import Kestrel.Proofs.Literals.Quotations
import Kestrel.Proofs.Literals.Yields
import Kestrel.Proofs.Lockstep.Basic
import Kestrel.Proofs.Lockstep.Expression
import Kestrel.Proofs.Lockstep.Lexical
import Kestrel.Proofs.Lockstep.Progress
import Kestrel.Proofs.Lockstep.Statement
import Kestrel.Proofs.Lockstep.Text
import Kestrel.Proofs.Lockstep.Token
import Kestrel.Proofs.Loops.Unrolling
import Kestrel.Proofs.Machine.Basic
import Kestrel.Proofs.Machine.Halting
import Kestrel.Proofs.Machine.Performs
import Kestrel.Proofs.Names.Reserved
import Kestrel.Proofs.Names.Touching
import Kestrel.Proofs.Outlines.Heading
import Kestrel.Proofs.Outlines.Quoting
import Kestrel.Proofs.Outlines.Tree
import Kestrel.Proofs.Outlines.Walk
import Kestrel.Proofs.Past.Carried
import Kestrel.Proofs.Past.Reset
import Kestrel.Proofs.Past.Shift
import Kestrel.Proofs.Past.Under
import Kestrel.Proofs.Reading.Basic
import Kestrel.Proofs.Reading.Chain
import Kestrel.Proofs.Reading.Operand
import Kestrel.Proofs.Reading.Statement
import Kestrel.Proofs.Rendering.Basic
import Kestrel.Proofs.Rendering.Expression
import Kestrel.Proofs.Rendering.Literal
import Kestrel.Proofs.Rendering.Program
import Kestrel.Proofs.Rendering.Words
import Kestrel.Proofs.Scopes.Apart
import Kestrel.Proofs.Scopes.Closure
import Kestrel.Proofs.Scopes.Course
import Kestrel.Proofs.Scopes.Declared
import Kestrel.Proofs.Scopes.Effectless
import Kestrel.Proofs.Scopes.History
import Kestrel.Proofs.Scopes.Isolation
import Kestrel.Proofs.Scopes.Keeps
import Kestrel.Proofs.Scopes.Reach
import Kestrel.Proofs.Scopes.Recorded
import Kestrel.Proofs.Scopes.Visible
import Kestrel.Proofs.Scopes.Writing
import Kestrel.Proofs.Templates.Rendered
import Kestrel.Proofs.Templates.Segments
import Kestrel.Proofs.Tracing.Debug
import Kestrel.Proofs.Tracing.Inert
import Kestrel.Proofs.Tracing.Muted
import Kestrel.Proofs.Tracing.Notes
import Kestrel.Proofs.Tracing.Writable
import Kestrel.Proofs.Unclosed.Program
import Kestrel.Proofs.Unclosed.Statement
import Kestrel.Proofs.Unclosed.Token
import Kestrel.Proofs.Written.Lexing
import Kestrel.Proofs.Written.Position
import Kestrel.Proofs.Written.Precedence
import Kestrel.Proofs.Written.Tabs
import Kestrel.Proofs.Written.Token
import Kestrel.Reader.Cursor
import Kestrel.Reader.Expression
import Kestrel.Reader.Program
import Kestrel.Reader.Rule
import Kestrel.Reader.Statement
import Kestrel.Reader.Token
import Kestrel.Scope.Store
import Kestrel.Session
import Kestrel.Syntax.Keyword
import Kestrel.Syntax.Node
import Kestrel.Syntax.Operator
import Kestrel.Syntax.Outline
import Kestrel.Syntax.Search
import Kestrel.Template.Formula
import Kestrel.Template.Segment
import Kestrel.Text.Blank
import Kestrel.Text.DecimalDigit
import Kestrel.Text.Lines
import Kestrel.Text.Numeral
import Kestrel.Text.Pieces
import Kestrel.Text.Printable
import Kestrel.Text.Quoted
import Kestrel.Text.Tabs
import Kestrel.Text.Utf8
import Kestrel.Value.Basic
import Kestrel.Value.Operations
