import TokenLayout.Main
import TokenLayout.Rule
import TokenLayout.Session
import TokenLayout.Proofs.Forest
import TokenLayout.Proofs.Regions
import TokenLayout.Proofs.Closers
import TokenLayout.Proofs.Strays
import TokenLayout.Proofs.Balance
import TokenLayout.Proofs.Counting
import TokenLayout.Proofs.Closing
import TokenLayout.Proofs.Shut
import TokenLayout.Proofs.Indexes
import TokenLayout.Proofs.Erasure
import TokenLayout.Proofs.Unfinished
import TokenLayout.Proofs.Braces
import TokenLayout.Proofs.Matching
import TokenLayout.Proofs.Pieces
import TokenLayout.Proofs.Following
import TokenLayout.Proofs.Rerun
import TokenLayout.Proofs.Convergence
import TokenLayout.Proofs.Decisions
import TokenLayout.Proofs.Outcome
import TokenLayout.Proofs.Closed
import TokenLayout.Proofs.Depth
import TokenLayout.Proofs.Acceptance
import TokenLayout.Proofs.Separation
import TokenLayout.Proofs.Kinship
import TokenLayout.Proofs.Routes
import TokenLayout.Proofs.Shape
import TokenLayout.Proofs.SourceOrder
import TokenLayout.Proofs.Parting
import TokenLayout.Proofs.Programs
import TokenLayout.Proofs.Renderings
import TokenLayout.Proofs.Restoration
import TokenLayout.Proofs.Conditions
import TokenLayout.Proofs.Notation.Lexing
import TokenLayout.Proofs.Notation.Reading
import TokenLayout.Proofs.Notation.RoundTrip
import TokenLayout.Proofs.Notation.Columns
import TokenLayout.Proofs.Notation.Grammar
import TokenLayout.Proofs.Notation.Lines
import TokenLayout.Proofs.Json.RoundTrip
import TokenLayout.Proofs.Json.Records
import TokenLayout.Proofs.Settings.Precedence
import TokenLayout.Proofs.Blame
import TokenLayout.Proofs.Notation.Slices
import TokenLayout.Proofs.Notation.Refusals
import TokenLayout.Proofs.Placement
import TokenLayout.Proofs.Visits
import TokenLayout.Proofs.Colons
import TokenLayout.Proofs.Groups
