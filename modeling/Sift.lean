import Sift.Main
import Sift.Proofs.Calendar.Literal
import Sift.Proofs.Calendar.Written
import Sift.Proofs.Filter.Acceptance
import Sift.Proofs.Filter.Meaning
import Sift.Proofs.Grammar.BracketClass
import Sift.Proofs.Grammar.Interval
import Sift.Proofs.Grammar.Layers
import Sift.Proofs.Grammar.Soundness
import Sift.Proofs.Grammar.Completeness
import Sift.Proofs.Grammar.Criteria
import Sift.Proofs.Grammar.Printing
import Sift.Proofs.Binary64.Rounding
import Sift.Proofs.Binary64.Nearest
import Sift.Proofs.Filter.Wire
import Sift.Proofs.Filter.Textual
import Sift.Proofs.Grammar.Placement
import Sift.Proofs.Filter.Negation
import Sift.Proofs.Filter.NormalForm
import Sift.Proofs.Cache.Recency
import Sift.Proofs.Cache.Refinement
import Sift.Proofs.Cache.Transparency
import Sift.Proofs.Token.Written
import Sift.Proofs.Target.Paths
import Sift.Proofs.Target.Resolution
import Sift.Proofs.Json.Text
import Sift.Proofs.Target.Conjunction
import Sift.Proofs.Json.RoundTrip
import Sift.Proofs.Filter.Depth
import Sift.Proofs.Token.Exactness
import Sift.Proofs.Filter.Regrouping
import Sift.Proofs.Grammar.Expansion
import Sift.Proofs.Grammar.Composition
import Sift.Proofs.Sorting.Agreement
import Sift.Proofs.Filter.Intervals
import Sift.Proofs.Grammar.Bounds
import Sift.Proofs.Grammar.ErrorPlaces
import Sift.Proofs.Filter.Absence
import Sift.Proofs.Filter.Collections
import Sift.Proofs.Text.Decimals
import Sift.Proofs.Filter.Numbers
import Sift.Proofs.Filter.Shapes
import Sift.Proofs.Filter.Integers
import Sift.Proofs.Sorting.Names
import Sift.Proofs.Cache.Inclusion
import Sift.Proofs.Cache.Indexes
import Sift.Proofs.Grammar.ClassMembers
import Sift.Proofs.Grammar.Calls
import Sift.Proofs.Grammar.Quotes
