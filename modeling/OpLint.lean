import OpLint.Analysis.Analyzer
import OpLint.Analysis.Harvest
import OpLint.Analysis.Run
import OpLint.Analysis.Scan
import OpLint.Analysis.Sink
import OpLint.Command.Arguments
import OpLint.Command.Failure
import OpLint.Command.Inputs
import OpLint.Command.LogFormat
import OpLint.Command.Screen
import OpLint.Command.Session
import OpLint.Decimal.Double
import OpLint.Decimal.Shortest
import OpLint.Diagnostic.Basic
import OpLint.Diagnostic.Stored
import OpLint.Event
import OpLint.File.Path
import OpLint.File.Tree
import OpLint.Forest.Basic
import OpLint.Forest.Stored
import OpLint.Forest.Walk
import OpLint.Json.Draft
import OpLint.Json.Error
import OpLint.Json.Reader
import OpLint.Json.Record
import OpLint.Json.Token
import OpLint.Json.Value
import OpLint.Main
import OpLint.Operation.Basic
import OpLint.Operation.Kind
import OpLint.Operation.Stored
import OpLint.Options.Basic
import OpLint.Options.Stored
import OpLint.Proofs.Analysis.AnyOrder
import OpLint.Proofs.Analysis.BodyTrees
import OpLint.Proofs.Analysis.Calls
import OpLint.Proofs.Analysis.Cancellation
import OpLint.Proofs.Analysis.Containment
import OpLint.Proofs.Analysis.Crew
import OpLint.Proofs.Analysis.Dispatch
import OpLint.Proofs.Analysis.Enablement
import OpLint.Proofs.Analysis.GeneratedCode
import OpLint.Proofs.Analysis.Harvest
import OpLint.Proofs.Analysis.Interference
import OpLint.Proofs.Analysis.Recast
import OpLint.Proofs.Analysis.Registration
import OpLint.Proofs.Analysis.Run
import OpLint.Proofs.Analysis.Scan
import OpLint.Proofs.Analysis.SelfAssignments
import OpLint.Proofs.Analysis.Severities
import OpLint.Proofs.Analysis.Sink
import OpLint.Proofs.Ascending
import OpLint.Proofs.Command.Inputs
import OpLint.Proofs.Command.OptionsFile
import OpLint.Proofs.File.Path
import OpLint.Proofs.File.Place
import OpLint.Proofs.File.Tree
import OpLint.Proofs.Forest.Builder
import OpLint.Proofs.Forest.Claims
import OpLint.Proofs.Forest.Links
import OpLint.Proofs.Forest.Preorder
import OpLint.Proofs.Forest.Tree
import OpLint.Proofs.Json.Lexemes
import OpLint.Proofs.Json.Printed
import OpLint.Proofs.Json.ReadBack
import OpLint.Proofs.Json.Refinement
import OpLint.Proofs.Operation.ReadBack
import OpLint.Proofs.Options.RuleIds
import OpLint.Proofs.Report.Locations
import OpLint.Proofs.Report.Sources
import OpLint.Proofs.Rule.InfiniteRecursion
import OpLint.Proofs.Text.Bytes
import OpLint.Proofs.Text.Lines
import OpLint.Proofs.Text.Substitution
import OpLint.Proofs.Text.Template
import OpLint.Proofs.Unit.Acceptance
import OpLint.Proofs.Unit.Bodies
import OpLint.Proofs.Unit.Checked
import OpLint.Proofs.Unit.Decoded
import OpLint.Proofs.Unit.Parts
import OpLint.Proofs.Unit.RoundTrip
import OpLint.Proofs.Verdict
import OpLint.Report.Basic
import OpLint.Report.Sources
import OpLint.Report.Style
import OpLint.Rule.Basic
import OpLint.Rule.InfiniteRecursion
import OpLint.Span
import OpLint.Symbol.Basic
import OpLint.Symbol.Stored
import OpLint.Text.Lines
import OpLint.Text.Quoted
import OpLint.Text.Replace
import OpLint.Text.Standalone
import OpLint.Text.Template
import OpLint.Unit.Basic
import OpLint.Unit.Stored
import OpLint.Violation
import OpLint.Vocabulary
