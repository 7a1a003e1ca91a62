import CodeMetrics.Analyzer
import CodeMetrics.Dialect.Extension
import CodeMetrics.Document.Reader
import CodeMetrics.Measure.Given
import CodeMetrics.Proofs.Scope.ClassAttribution
import CodeMetrics.Report.Grade
import CodeMetrics.Report.Layout
import CodeMetrics.Scope.Operation
import CodeMetrics.Settings.Environment
import CodeMetrics.Proofs.Scope.Conservation
import CodeMetrics.Proofs.Traversal.Yield
import CodeMetrics.Proofs.Traversal.Extension
import CodeMetrics.Proofs.Document.Field
import CodeMetrics.Proofs.Document.Reordering
import CodeMetrics.Proofs.Node.Name
import CodeMetrics.Proofs.Rule.Reading
import CodeMetrics.Proofs.Rule.Asking
import CodeMetrics.Proofs.Traversal.View
import CodeMetrics.Proofs.Traversal.KeyOrder
import CodeMetrics.Proofs.Traversal.Lockstep
import CodeMetrics.Proofs.Traversal.Strictness
import CodeMetrics.Proofs.Dialect.TranslatedName
import CodeMetrics.Proofs.Dialect.TranslatedRule
import CodeMetrics.Proofs.Dialect.Agreement
import CodeMetrics.Proofs.Decimal.Shortest
import CodeMetrics.Proofs.Decimal.Text
import CodeMetrics.Proofs.Text.Quoted
import CodeMetrics.Proofs.Cache.Provenance
import CodeMetrics.Proofs.Cache.Operation
import CodeMetrics.Proofs.Cache.Recency
import CodeMetrics.Proofs.Cache.Inclusion
import CodeMetrics.Proofs.Cache.Ledger
import CodeMetrics.Proofs.Dialect.OptionalChain
import CodeMetrics.Proofs.Dialect.ChainAgreement
import CodeMetrics.Proofs.Dialect.StatementCall
import CodeMetrics.Proofs.Dialect.CountingFlag
import CodeMetrics.Proofs.Scope.Recount
import CodeMetrics.Proofs.Traversal.DependencyOption
import CodeMetrics.Proofs.Traversal.Concatenation
import CodeMetrics.Proofs.Traversal.Remark
import CodeMetrics.Proofs.Scope.Discovery
import CodeMetrics.Proofs.Settings.CacheKey
import CodeMetrics.Proofs.Cache.Failure
import CodeMetrics.Proofs.Scope.Representation
import CodeMetrics.Proofs.Traversal.Totality
import CodeMetrics.Proofs.Report.Halstead
import CodeMetrics.Proofs.Traversal.Bound
import CodeMetrics.Proofs.Traversal.AddingFlag
import CodeMetrics.Proofs.Dialect.Conservative
import CodeMetrics.Proofs.Rule.Parent
import CodeMetrics.Proofs.Traversal.FreeImport
import CodeMetrics.Proofs.Scope.LineRange
import CodeMetrics.Proofs.Report.Assembly
import CodeMetrics.Proofs.Traversal.DependencyList
import CodeMetrics.Proofs.Node.StaticName
import CodeMetrics.Proofs.Settings.Check
import CodeMetrics.Proofs.Settings.Resolution
import CodeMetrics.Proofs.Settings.RoundTrip
import CodeMetrics.Proofs.Settings.KeyText
import CodeMetrics.Proofs.Node.LiteralText
