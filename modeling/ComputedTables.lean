import ComputedTables.Text.Word
import ComputedTables.Text.Lines
import ComputedTables.Text.Digest
import ComputedTables.Decimal.Fixed
import ComputedTables.Decimal.Literal
import ComputedTables.Formula.Arithmetic
import ComputedTables.Formula.Segments
import ComputedTables.Formula.Currency
import ComputedTables.Variable.Index
import ComputedTables.Variable.Name
import ComputedTables.Display.Number
import ComputedTables.Table.Preview
import ComputedTables.Engine.Operations
import ComputedTables.Indexing.Bulk
import ComputedTables.Watch.Key
import ComputedTables.Watch.Screen
import ComputedTables.Export.Csv
import ComputedTables.Storage.StoredIndex
import ComputedTables.Storage.StoredSettings
import ComputedTables.Folder.Scan
import ComputedTables.Main
import ComputedTables.Text.Cluster
import ComputedTables.Proofs.References
import ComputedTables.Proofs.Spans
import ComputedTables.Proofs.SeparatorRow
import ComputedTables.Proofs.Previews
import ComputedTables.Proofs.Consistency
import ComputedTables.Proofs.Incremental
import ComputedTables.Proofs.BulkRounds
import ComputedTables.Proofs.BulkProgress
import ComputedTables.Proofs.TwoRounds
import ComputedTables.Proofs.Follows
import ComputedTables.Proofs.WatcherSteps
import ComputedTables.Proofs.Notices
import ComputedTables.Proofs.Session
import ComputedTables.Proofs.EditsArrive
import ComputedTables.Proofs.IndexChanges
import ComputedTables.Proofs.Passes
import ComputedTables.Proofs.Actions
import ComputedTables.Proofs.StoreFollows
import ComputedTables.Proofs.Provenance
import ComputedTables.Proofs.Idempotence
import ComputedTables.Proofs.TableRuns
import ComputedTables.Proofs.ScopedPass
import ComputedTables.Proofs.SkippedPasses
import ComputedTables.Proofs.Isolation
import ComputedTables.Proofs.Grammar
import ComputedTables.Proofs.Writings
import ComputedTables.Proofs.CallGrammar
import ComputedTables.Proofs.PlainNumbers
import ComputedTables.Proofs.Substitution
import ComputedTables.Proofs.ScanReport
import ComputedTables.Proofs.ReadableReferences
import ComputedTables.Proofs.NonFinite
import ComputedTables.Proofs.RowMajor
import ComputedTables.Proofs.DataOnly
import ComputedTables.Proofs.WrittenBack
import ComputedTables.Proofs.FormulaMarks
import ComputedTables.Proofs.RenderedText
import ComputedTables.Proofs.CellTexts
import ComputedTables.Proofs.CurrencyArguments
import ComputedTables.Proofs.DeadlineHistory
import ComputedTables.Proofs.ListedDocuments
import ComputedTables.Proofs.FormattedNumbers
