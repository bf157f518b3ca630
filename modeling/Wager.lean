import Wager.Check.Basic
import Wager.Config.Basic
import Wager.Config.EnvFile
import Wager.Config.Environment
import Wager.Datum
import Wager.Decimal.Fixed
import Wager.Decimal.Numeral
import Wager.Decimal.Shortest
import Wager.Distribution.Match
import Wager.Distribution.State
import Wager.Entry.Basic
import Wager.Entry.Coverage
import Wager.Entry.Market
import Wager.Entry.Outcome
import Wager.Entry.Reader
import Wager.Entry.Semantic
import Wager.Fid
import Wager.Kelly
import Wager.Mode
import Wager.Odds
import Wager.Parlay
import Wager.Proofs.Datum
import Wager.Proofs.Decimal.Fixed
import Wager.Proofs.Distribution.Atoms
import Wager.Proofs.Distribution.Match
import Wager.Proofs.Distribution.States
import Wager.Proofs.Distribution.Statistics
import Wager.Proofs.Distribution.Weights
import Wager.Proofs.Keyed
import Wager.Proofs.Parlay.CrossProduct
import Wager.Proofs.Parlay.Hit
import Wager.Proofs.Parlay.Mass
import Wager.Proofs.Parlay.Normalized
import Wager.Proofs.Parlay.Picks
import Wager.Proofs.Parlay.Stage
import Wager.Proofs.Scalar.Exact
import Wager.Proofs.Scalar.Rational
import Wager.Proofs.Slip.Gap
import Wager.Proofs.Slip.Matches
import Wager.Proofs.Slip.Pieces
import Wager.Proofs.Slip.Segments
import Wager.Scalar.Basic
import Wager.Scalar.Double
import Wager.Slip.Assignment
import Wager.Slip.Diagnostic
import Wager.Slip.Draft
import Wager.Slip.Extraction
import Wager.Slip.Gap
import Wager.Slip.Keyword
import Wager.Slip.Parameters
import Wager.Slip.Parse
import Wager.Slip.Pattern
import Wager.Slip.Percent
import Wager.Slip.Rule
import Wager.Slip.Segment
import Wager.Slip.Storage
import Wager.Stake.Basic
import Wager.Stake.Outlook
import Wager.StoredMatch
import Wager.Team.Basic
import Wager.Team.Cache
import Wager.Team.Dictionary
import Wager.Team.Directory
import Wager.Team.Library
import Wager.Team.Scan
import Wager.Team.Similarity
import Wager.Team.Suggestion
import Wager.Text.Basic
import Wager.Text.CaseTable
import Wager.Text.Casing
import Wager.Text.Digit
import Wager.Text.Normalize
import Wager.Text.PrintableTable
import Wager.Text.Quoted
import Wager.Tys
import Wager.Proofs.Slip.Orphan
import Wager.Proofs.Team.Names
import Wager.Proofs.Team.Dictionary
import Wager.Proofs.Team.Directory
import Wager.Proofs.Team.Ownership
import Wager.Proofs.Scalar.Real
import Wager.Proofs.Kelly.Grid
import Wager.Proofs.Kelly.Search
import Wager.Proofs.Kelly.Growth
import Wager.Proofs.Kelly.Optimal
import Wager.Proofs.Kelly.Edge
import Wager.Proofs.Kelly.Ticket
import Wager.Proofs.Slip.Drafts
import Wager.Proofs.Slip.Parse
import Wager.Proofs.StoredMatch
import Wager.Proofs.Slip.Values
import Wager.Proofs.Team.Scan
import Wager.Proofs.Team.Leftmost
import Wager.Proofs.Team.Rows
import Wager.Proofs.Slip.Storage
import Wager.Proofs.Team.Cache
import Wager.Proofs.Slip.Remark
import Wager.Proofs.Slip.Quotes
import Wager.Proofs.Team.Failure
import Wager.Proofs.Team.Library
import Wager.Proofs.Text.Spacing
import Wager.Proofs.Text.Listing
import Wager.Proofs.Entry.Foreign
import Wager.Proofs.Slip.EntryText
import Wager.Proofs.Scalar.Double
import Wager.Proofs.Stake.Stored
import Wager.Proofs.Stake.Recommendation
import Wager.Proofs.Outsized
import Wager.Proofs.Stake.Divisor
import Wager.Proofs.Text.Words
import Wager.Proofs.Entry.Word
import Wager.Proofs.Entry.Line
import Wager.Proofs.Entry.Beside
import Wager.Proofs.Entry.Result
import Wager.Proofs.Entry.Handicap
import Wager.Proofs.Entry.Total
import Wager.Proofs.Decimal.Shortest
import Wager.Proofs.Decimal.Written
import Wager.Proofs.Scalar.DoubleText
import Wager.Proofs.Entry.Key
import Wager.Proofs.Text.Case
import Wager.Proofs.Entry.Retyped
import Wager.Proofs.Entry.Coverage
import Wager.Proofs.Entry.OrdinaryWord
import Wager.Proofs.Distribution.Model
import Wager.Proofs.Distribution.Pool
import Wager.Proofs.Distribution.Nameless
import Wager.Proofs.Distribution.Union
import Wager.Proofs.Distribution.Pricing
import Wager.Proofs.Distribution.Figures
import Wager.Proofs.Distribution.Order
import Wager.Proofs.Scalar.Rounding
import Wager.Proofs.Slip.Typed
import Wager.Proofs.Slip.Ranges
import Wager.Proofs.Text.Search
import Wager.Proofs.Slip.Sweep
import Wager.Proofs.Slip.ModeName
import Wager.Proofs.Slip.Number
import Wager.Proofs.Slip.Led
import Wager.Proofs.Slip.Score
import Wager.Proofs.Slip.Spared
import Wager.Proofs.Text.Squeeze
import Wager.Proofs.Slip.ScoreKept
import Wager.Proofs.Slip.Blocks
import Wager.Proofs.Slip.BlockOrder
import Wager.Proofs.Slip.Sides
import Wager.Proofs.Slip.Misfit
import Wager.Proofs.Team.Lookup
import Wager.Proofs.Text.InPlace
import Wager.Proofs.Team.OwnText
import Wager.Proofs.Ordered
import Wager.Proofs.Text.Occurs
import Wager.Proofs.Team.Gathered
import Wager.Proofs.Team.Search
import Wager.Proofs.Team.Suggestion
import Wager.Proofs.Slip.Tiling
import Wager.Proofs.Entry.MainMarket
import Wager.Proofs.Reread
import Wager.Proofs.Stake.Outlook
import Wager.Proofs.Entry.Name
