import ContestGrading.FileTree
import ContestGrading.Main
import ContestGrading.Proofs.Binary64.Rounding
import ContestGrading.Proofs.Binary64.Order
import ContestGrading.Proofs.Binary64.Arithmetic
import ContestGrading.Proofs.Decimal.Digits
import ContestGrading.Proofs.Decimal.Value
import ContestGrading.Proofs.Decimal.Rounding
import ContestGrading.Proofs.Decimal.Nearest
import ContestGrading.Proofs.Decimal.HalfEven
import ContestGrading.Proofs.Decimal.Precision
import ContestGrading.Proofs.Decimal.Ties
import ContestGrading.Proofs.Decimal.Numeral
import ContestGrading.Proofs.Decimal.Plain
import ContestGrading.Proofs.Decimal.General
import ContestGrading.Proofs.Decimal.Significant
import ContestGrading.Proofs.Decimal.ScoreText
import ContestGrading.Proofs.Decimal.Whole
import ContestGrading.Proofs.Outcome
import ContestGrading.Proofs.Journal
import ContestGrading.Proofs.Template.Fill
import ContestGrading.Proofs.Template.Reading
import ContestGrading.Proofs.Template.Counting
import ContestGrading.Proofs.Template.Places
import ContestGrading.Proofs.Template.Numbers
import ContestGrading.Proofs.Json.Keys
import ContestGrading.Proofs.Settings.Arguments
import ContestGrading.Proofs.Settings.Merge
import ContestGrading.Proofs.Grading.Arity
import ContestGrading.Proofs.Decimal.Checked
import ContestGrading.Proofs.Grading.Construction
import ContestGrading.Proofs.Grading.Evaluations
import ContestGrading.Proofs.Grading.Breakdown
import ContestGrading.Proofs.Grading.Incomplete
import ContestGrading.Proofs.Store.Scoring
import ContestGrading.Proofs.Store.Access
import ContestGrading.Proofs.Report.Failure
import ContestGrading.Proofs.Report.Run
import ContestGrading.Proofs.Grading.Rows
import ContestGrading.Proofs.Grading.Noninterference
import ContestGrading.Proofs.Grading.Fractions
import ContestGrading.Proofs.Grading.Bounds
import ContestGrading.Proofs.Grading.Monotone
import ContestGrading.Proofs.Grading.PublicView
import ContestGrading.Proofs.Grading.Disclosure
import ContestGrading.Proofs.Grading.OrderIndependence
import ContestGrading.Proofs.Grading.Failures
import ContestGrading.Proofs.Text.Utf8
import ContestGrading.Proofs.Locale.Shipped
import ContestGrading.Proofs.Grading.Rendering
import ContestGrading.Proofs.Grading.Columns
import ContestGrading.Proofs.Pattern.Outline
import ContestGrading.Proofs.Pattern.Enclosed
import ContestGrading.Proofs.Pattern.Pieces
import ContestGrading.Proofs.Pattern.Grammar
import ContestGrading.Proofs.Pattern.Anchored
import ContestGrading.Proofs.Grading.Counts
import ContestGrading.Proofs.Grading.Anchoring
import ContestGrading.Proofs.Grading.Visibility
import ContestGrading.Proofs.Grading.Missing
import ContestGrading.Proofs.Decimal.Ranking
import ContestGrading.Proofs.Decimal.Scientific
import ContestGrading.Proofs.Decimal.Layout
import ContestGrading.Proofs.Decimal.NearestDouble
import ContestGrading.Proofs.Decimal.Places
import ContestGrading.Proofs.Template.Escaping
import ContestGrading.Proofs.Grading.StatusLine
import ContestGrading.Proofs.Grading.Verbatim
import ContestGrading.Proofs.Grading.Worst
import ContestGrading.Proofs.Binary64.Ends
import ContestGrading.Proofs.Grading.Extremes
import ContestGrading.Proofs.Decimal.ReadBack
import ContestGrading.Proofs.Decimal.Written
import ContestGrading.Proofs.Locale.Size
import ContestGrading.Proofs.Locale.SizeOrder
import ContestGrading.Proofs.Json.Listing
import ContestGrading.Proofs.Path
import ContestGrading.Proofs.Locale.Confinement
import ContestGrading.Proofs.Report.Reading
import ContestGrading.Proofs.Locale.Catalog
import ContestGrading.Proofs.Store.Unscored
import ContestGrading.Proofs.Text.CodePoints
import ContestGrading.Proofs.Grading.TargetOrder
import ContestGrading.Proofs.Decimal.Idempotence
import ContestGrading.Proofs.Decimal.Reread
import ContestGrading.Proofs.Decimal.Stability
