import QueryBounds.Document
import QueryBounds.Text.Glyph
import QueryBounds.Source.Token
import QueryBounds.Source.Fault
import QueryBounds.Source.Scan
import QueryBounds.Source.Reader
import QueryBounds.Source.Query
import QueryBounds.Fragment.Path
import QueryBounds.Fragment.Index
import QueryBounds.Alias.Occurrences
import QueryBounds.Alias.Counter
import QueryBounds.Depth.Nesting
import QueryBounds.Depth.Measurer
import QueryBounds.Depth.Introspection
import QueryBounds.Text.Printable
import QueryBounds.Text.Numeral
import QueryBounds.Text.Quoted
import QueryBounds.Text.Identifier
import QueryBounds.Text.Excerpt
import QueryBounds.Text.Misspelling
import QueryBounds.Setting.Value
import QueryBounds.Setting.Name
import QueryBounds.Failure.Report
import QueryBounds.Failure.Cause
import QueryBounds.Limit.Violation
import QueryBounds.Limit.Run
import QueryBounds.Limit.Basic
import QueryBounds.Limit.Options
import QueryBounds.Limit.Rule
import QueryBounds.Limit.Validate
import QueryBounds.Schema.Definition
import QueryBounds.Schema.Basic
import QueryBounds.Schema.Finding
import QueryBounds.Guard
import QueryBounds.Files
import QueryBounds.Command.Arguments
import QueryBounds.Command.Run
import QueryBounds.Main
import QueryBounds.Proofs.Expansion
import QueryBounds.Proofs.Memo
import QueryBounds.Proofs.Tally
import QueryBounds.Proofs.AliasRejection
import QueryBounds.Proofs.DepthRejection
import QueryBounds.Proofs.RootFields
import QueryBounds.Proofs.Inlining
import QueryBounds.Proofs.InForce
import QueryBounds.Proofs.NamedParameters
import QueryBounds.Proofs.HiddenLimits
import QueryBounds.Proofs.CallOrder
import QueryBounds.Proofs.CheckOrder
import QueryBounds.Proofs.Rebuilding
import QueryBounds.Proofs.Statistics
import QueryBounds.Proofs.RuleAgreement
import QueryBounds.Proofs.Arguments
import QueryBounds.Proofs.CommandAgreement
import QueryBounds.Proofs.Edits
import QueryBounds.Proofs.StoredSettings
import QueryBounds.Proofs.Growth
import QueryBounds.Proofs.Reordering
import QueryBounds.Proofs.LiveFragments
import QueryBounds.Proofs.AllowedAliases
import QueryBounds.Proofs.DepthBound
import QueryBounds.Proofs.Relabeling
import QueryBounds.Proofs.Labels
import QueryBounds.Proofs.Visiting
import QueryBounds.Proofs.SharedPath
import QueryBounds.Proofs.Scopes
import QueryBounds.Proofs.ValidOptions
import QueryBounds.Proofs.ValueEquality
import QueryBounds.Proofs.EquivalentOptions
import QueryBounds.Proofs.EqualLimits
import QueryBounds.Proofs.GuardArguments
import QueryBounds.Proofs.Remembering
import QueryBounds.Proofs.RememberedDepths
import QueryBounds.Proofs.RememberedCounts
import QueryBounds.Proofs.ReportTexts
import QueryBounds.Proofs.RootEnumeration
