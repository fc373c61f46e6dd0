import RuleFlow.Text.Numeric
import RuleFlow.Text.Blank
import RuleFlow.Text.Join
import RuleFlow.Text.Search
import RuleFlow.Text.Word
import RuleFlow.Table
import RuleFlow.Term
import RuleFlow.Clause.Basic
import RuleFlow.Clause.Render
import RuleFlow.Clause.Variables
import RuleFlow.Reader.Lexeme
import RuleFlow.Reader.Prefixes
import RuleFlow.Reader.Term
import RuleFlow.Reader.Clause
import RuleFlow.Reader.Document
import RuleFlow.Canonical.Order
import RuleFlow.Canonical.Blind
import RuleFlow.Canonical.Numbering
import RuleFlow.Canonical.Form
import RuleFlow.Json.Basic
import RuleFlow.Json.Writer
import RuleFlow.Json.Reader
import RuleFlow.Json.Record
import RuleFlow.Diagnostic.Code
import RuleFlow.Diagnostic.Basic
import RuleFlow.Diagnostic.Json
import RuleFlow.Diagnostic.File
import RuleFlow.Reader.Diagnosis
import RuleFlow.Network.Operator
import RuleFlow.Network.Registry
import RuleFlow.Network.Plan
import RuleFlow.Network.Report
import RuleFlow.Network.Compile
import RuleFlow.Graph.Basic
import RuleFlow.Graph.Render
import RuleFlow.Graph.Json
import RuleFlow.Graph.Wiring
import RuleFlow.Text.Hex
import RuleFlow.Toml.Moment.Basic
import RuleFlow.Toml.Basic
import RuleFlow.Toml.Lexeme
import RuleFlow.Toml.Moment.Reader
import RuleFlow.Toml.Assembly
import RuleFlow.Toml.Reader
import RuleFlow.Toml.Writer
import RuleFlow.Settings.Basic
import RuleFlow.Settings.Error
import RuleFlow.Settings.Document
import RuleFlow.Settings.Layers
import RuleFlow.CommandLine.Arguments
import RuleFlow.CommandLine.Effective
import RuleFlow.CommandLine.Run
import RuleFlow.Main
import RuleFlow.Proofs.Clause.Substitution
import RuleFlow.Proofs.Clause.Alike
import RuleFlow.Proofs.Clause.Rearrangement
import RuleFlow.Proofs.Clause.Connected
import RuleFlow.Proofs.Canonical.Ties
import RuleFlow.Proofs.Canonical.Enumeration
import RuleFlow.Proofs.Canonical.InOrder
import RuleFlow.Proofs.Canonical.Renaming
import RuleFlow.Proofs.Canonical.Faithful
import RuleFlow.Proofs.Reader.Legible
import RuleFlow.Proofs.Reader.ReadBack
import RuleFlow.Proofs.Clause.Delimited
import RuleFlow.Proofs.Canonical.Reading
import RuleFlow.Proofs.Canonical.Patterns
import RuleFlow.Proofs.Canonical.Distinct
import RuleFlow.Proofs.Canonical.Variants
import RuleFlow.Proofs.Canonical.Idempotence
import RuleFlow.Proofs.Network.Requests
import RuleFlow.Proofs.Network.Meaning
import RuleFlow.Proofs.Network.WellBuilt
import RuleFlow.Proofs.Network.Planning
import RuleFlow.Proofs.Network.Adoption
import RuleFlow.Proofs.Network.Correctness
import RuleFlow.Proofs.Network.Sharing
import RuleFlow.Proofs.Network.Positions
import RuleFlow.Proofs.Network.Layers
import RuleFlow.Proofs.Graph.Places
import RuleFlow.Proofs.Graph.Flows
import RuleFlow.Proofs.Graph.Shape
import RuleFlow.Proofs.Network.Outline
import RuleFlow.Proofs.Network.Progress
import RuleFlow.Proofs.Network.Composition
import RuleFlow.Proofs.Network.Omission
import RuleFlow.Proofs.Network.Origins
import RuleFlow.Proofs.Network.Account
import RuleFlow.Proofs.Network.Crossings
import RuleFlow.Proofs.Network.Upstream
import RuleFlow.Proofs.Graph.Outlets
import RuleFlow.Proofs.Reader.Extension
import RuleFlow.Proofs.Reader.Calls
import RuleFlow.Proofs.Reader.Failure
import RuleFlow.Proofs.Reader.Declared
import RuleFlow.Proofs.Graph.Building
import RuleFlow.Proofs.Graph.Dot
import RuleFlow.Proofs.Graph.Reread
import RuleFlow.Proofs.Settings.Precedence
import RuleFlow.Proofs.Settings.Profiles
