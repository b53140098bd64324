import DotGraph.Document.Compile
import DotGraph.Graph.Equality
import DotGraph.Graph.Path
import DotGraph.Proofs.Document.Escaped
import DotGraph.Proofs.Document.Layout
import DotGraph.Proofs.Reading.RoundTrip
import DotGraph.Proofs.Attribute.History
import DotGraph.Proofs.Document.Influence
import DotGraph.Proofs.Document.Log
import DotGraph.Proofs.Document.Gap
import DotGraph.Proofs.Text.Quotation
import DotGraph.Proofs.Number.Decimal
import DotGraph.Proofs.Document.Zeros
import DotGraph.Proofs.Renderer.Exclusive
import DotGraph.Proofs.Text.Grammar
import DotGraph.Proofs.Renderer.Position
import DotGraph.Proofs.Document.Walk
import DotGraph.Proofs.Text.Lines
import DotGraph.Proofs.Document.Lines
import DotGraph.Proofs.Document.Flags
import DotGraph.Proofs.Graph.Equivalence
import DotGraph.Proofs.Document.Keys
import DotGraph.Proofs.Document.Keywords
import DotGraph.Proofs.Document.Ends
