import SpanScript.Main
import SpanScript.Proofs.Syntax.Exact
import SpanScript.Proofs.Syntax.Buffered
import SpanScript.Proofs.Template.Append
import SpanScript.Proofs.Template.Directive
import SpanScript.Proofs.Template.Endings
import SpanScript.Proofs.Template.OneBlock
import SpanScript.Proofs.Template.Contract
import SpanScript.Proofs.Template.Closers
import SpanScript.Proofs.Session.Apart
import SpanScript.Proofs.Session.Kept
import SpanScript.Proofs.Session.Located
import SpanScript.Proofs.Session.Locations
import SpanScript.Proofs.Session.Scoping
import SpanScript.Proofs.Session.Tail
import SpanScript.Proofs.Session.Frames
import SpanScript.Proofs.Command.OneLine
import SpanScript.Proofs.Eval.Layers
import SpanScript.Proofs.Template.Once
import SpanScript.Proofs.Eval.Bodies
import SpanScript.Proofs.Session.Breaks
import SpanScript.Proofs.Session.Returns
import SpanScript.Proofs.Session.Deletions
import SpanScript.Proofs.Session.Parameters
import SpanScript.Proofs.Store.Binding
import SpanScript.Proofs.Session.Counting
import SpanScript.Proofs.Eval.Cells
import SpanScript.Proofs.Eval.Quiet
import SpanScript.Proofs.Session.Touched
import SpanScript.Proofs.Eval.Indexing
import SpanScript.Proofs.Session.Elements
import SpanScript.Proofs.Token.Tiling
import SpanScript.Proofs.Bytes.Utf8
import SpanScript.Proofs.Bytes.Replacement
import SpanScript.Proofs.Syntax.Respelling
import SpanScript.Proofs.Token.StringLiteral
import SpanScript.Proofs.Value.Containing
import SpanScript.Proofs.Eval.Filling
import SpanScript.Proofs.Session.Fills
import SpanScript.Proofs.Session.Division
import SpanScript.Proofs.Session.Equality
import SpanScript.Proofs.Session.ReadBack
import SpanScript.Proofs.Session.WellFormed
import SpanScript.Proofs.Session.Cutting
import SpanScript.Proofs.Token.Leading
import SpanScript.Proofs.Token.Within
import SpanScript.Proofs.Syntax.CellFollows
import SpanScript.Proofs.Template.Sequence
import SpanScript.Proofs.Template.Excerpts
