import SearchFilter.Main
import SearchFilter.Proofs.Derivation
import SearchFilter.Proofs.Scanning
import SearchFilter.Proofs.Parsing
import SearchFilter.Proofs.Meaning
import SearchFilter.Proofs.SqlReading
import SearchFilter.Proofs.Spelling
import SearchFilter.Proofs.Erasure
import SearchFilter.Proofs.Parameters
import SearchFilter.Proofs.Completion
import SearchFilter.Proofs.DepthLimit
import SearchFilter.Proofs.Diagnostics
import SearchFilter.Proofs.OpenLiterals
import SearchFilter.Proofs.StrayParentheses
import SearchFilter.Proofs.QuotedText
import SearchFilter.Proofs.SettingsText
import SearchFilter.Proofs.CommandLine
import SearchFilter.Proofs.Loading
import SearchFilter.Proofs.Paths
import SearchFilter.Proofs.ConfigOutput
import SearchFilter.Proofs.OnePass
import SearchFilter.Proofs.Lossless
import SearchFilter.Proofs.Joining
import SearchFilter.Proofs.Outcomes
import SearchFilter.Proofs.Explaining
import SearchFilter.Proofs.Walks
import SearchFilter.Proofs.Reports
import SearchFilter.Proofs.Caret
import SearchFilter.Proofs.Hints
import SearchFilter.Proofs.Hierarchies
import SearchFilter.Proofs.Merging
import SearchFilter.Proofs.Resolving
import SearchFilter.Proofs.Drafting
import SearchFilter.Proofs.Printing
import SearchFilter.Proofs.Ancestry
import SearchFilter.Proofs.Discovery
import SearchFilter.Proofs.ColumnNames
import SearchFilter.Proofs.ByteCursor
import SearchFilter.Proofs.ByteLexemes
import SearchFilter.Proofs.Progress
import SearchFilter.Proofs.FurthestFailure
import SearchFilter.Proofs.ClosingQuotes
