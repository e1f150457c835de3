import Reckoner.Aggregate.Scope
import Reckoner.Logging.Record
import Reckoner.Logging.Setup
import Reckoner.Snippet.Language
import Reckoner.Service.Http
import Reckoner.Proofs.Descriptions
import Reckoner.Proofs.Outcomes
import Reckoner.Proofs.Interpreters
import Reckoner.Proofs.Names
import Reckoner.Proofs.Digits
import Reckoner.Proofs.Integers
import Reckoner.Proofs.IntegerText
import Reckoner.Proofs.UnitTexts
import Reckoner.Proofs.Crossing
import Reckoner.Proofs.Grouping
import Reckoner.Proofs.Reports
import Reckoner.Proofs.Denied
import Reckoner.Proofs.Lexing
import Reckoner.Proofs.Layouts
import Reckoner.Proofs.Rounding
import Reckoner.Proofs.ReadBack
import Reckoner.Proofs.Literals
import Reckoner.Proofs.Denotations
import Reckoner.Proofs.Scopes
import Reckoner.Proofs.NameSnippets
import Reckoner.Proofs.Timely
import Reckoner.Proofs.Relevance
import Reckoner.Proofs.JsonTexts
import Reckoner.Proofs.Returns
import Reckoner.Proofs.RoundTrips
import Reckoner.Proofs.JsonValues
import Reckoner.Proofs.Contents
import Reckoner.Proofs.Dispatch
import Reckoner.Proofs.ByteTexts
import Reckoner.Proofs.Answers
import Reckoner.Proofs.Constants
import Reckoner.Proofs.Languages
import Reckoner.Proofs.BareSnippets
import Reckoner.Proofs.Completion
import Reckoner.Proofs.Loading
import Reckoner.Proofs.Independence
import Reckoner.Proofs.Sums
import Reckoner.Proofs.Trimming
import Reckoner.Proofs.Numerals
import Reckoner.Proofs.TextNumbers
import Reckoner.Proofs.Extremes
import Reckoner.Proofs.Partitions
import Reckoner.Proofs.Decoding
import Reckoner.Proofs.Paging
import Reckoner.Proofs.Selection
import Reckoner.Proofs.Evaluations
import Reckoner.Proofs.Deadlines
import Reckoner.Proofs.Paths
import Reckoner.Proofs.Failing
import Reckoner.Proofs.NearestDigits
import Reckoner.Proofs.Labels
import Reckoner.Proofs.Joining
import Reckoner.Proofs.Fetching
import Reckoner.Proofs.Statuses
import Reckoner.Proofs.PageSizes
import Reckoner.Proofs.Confinement
import Reckoner.Proofs.ShownTexts
import Reckoner.Proofs.FirstLines
