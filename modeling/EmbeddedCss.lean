import EmbeddedCss.Css.Edit
import EmbeddedCss.Document
import EmbeddedCss.Options.Toml
import EmbeddedCss.Proofs.Text.Place
import EmbeddedCss.Proofs.Css.Derivation
import EmbeddedCss.Proofs.Css.Exactness
import EmbeddedCss.Proofs.Css.Printing
import EmbeddedCss.Proofs.Css.Terminator
import EmbeddedCss.Proofs.Marker.Label
import EmbeddedCss.Proofs.Marker.Weave
import EmbeddedCss.Proofs.Marker.Chunking
import EmbeddedCss.Proofs.Marker.Encoding
import EmbeddedCss.Proofs.Marker.Uncommented
import EmbeddedCss.Proofs.Marker.Sites
import EmbeddedCss.Proofs.Marker.Decoding
import EmbeddedCss.Proofs.Marker.Offset
import EmbeddedCss.Proofs.Css.Alignment
import EmbeddedCss.Proofs.Sheet.RoundTrip
import EmbeddedCss.Proofs.Host.Placement
import EmbeddedCss.Proofs.Document.Reading
import EmbeddedCss.Proofs.Document.Location
import EmbeddedCss.Proofs.Css.Rules
import EmbeddedCss.Proofs.Peg.Basic
import EmbeddedCss.Proofs.Peg.Recognition
import EmbeddedCss.Proofs.Css.Recognition
import EmbeddedCss.Proofs.Css.Acceptance
import EmbeddedCss.Proofs.Host.Nesting
import EmbeddedCss.Proofs.Template.Walk
import EmbeddedCss.Proofs.Host.Delimiting
import EmbeddedCss.Proofs.Css.Tracing
import EmbeddedCss.Proofs.Document.Errors
import EmbeddedCss.Proofs.Css.Words
import EmbeddedCss.Proofs.Parser.Outcome
import EmbeddedCss.Proofs.Css.Rebuilding
import EmbeddedCss.Proofs.Css.Commented
import EmbeddedCss.Proofs.Css.Lockstep
import EmbeddedCss.Proofs.Css.Unquoted
import EmbeddedCss.Proofs.Sheet.Inert
import EmbeddedCss.Proofs.Host.Balanced
import EmbeddedCss.Proofs.Template.Assembly
import EmbeddedCss.Proofs.Host.Collection
import EmbeddedCss.Proofs.Host.Cutting
import EmbeddedCss.Proofs.Host.Locality
import EmbeddedCss.Proofs.Host.TagOrigin
import EmbeddedCss.Proofs.Host.Disabling
import EmbeddedCss.Proofs.Host.Unclosed
import EmbeddedCss.Proofs.Sheet.Editing
import EmbeddedCss.Proofs.Css.Provenance
import EmbeddedCss.Proofs.Css.PropertyName
import EmbeddedCss.Proofs.Css.Tiling
import EmbeddedCss.Proofs.Diagnostic.Pointing
import EmbeddedCss.Proofs.Parser.Frontier
import EmbeddedCss.Proofs.Peg.Tracking
import EmbeddedCss.Proofs.Css.Furthest
import EmbeddedCss.Proofs.Css.Pieces
import EmbeddedCss.Proofs.Css.Unmatched
import EmbeddedCss.Proofs.Host.TagSpan
import EmbeddedCss.Proofs.Marker.Neutral
import EmbeddedCss.Proofs.Marker.Matching
import EmbeddedCss.Proofs.Options.Settings
