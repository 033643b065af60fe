import SchemaSync.Catalog.TableSpec
import SchemaSync.CommandLine
import SchemaSync.Connection.Rehearsal
import SchemaSync.Main
import SchemaSync.Proofs.OrderedMap
import SchemaSync.Proofs.Schema.Verified
import SchemaSync.Proofs.Catalog.Mutation
import SchemaSync.Proofs.Catalog.Edits
import SchemaSync.Proofs.Catalog.Parts
import SchemaSync.Proofs.Catalog.Integrity
import SchemaSync.Proofs.Schema.Sound
import SchemaSync.Proofs.Schema.Canonical
import SchemaSync.Proofs.Schema.Outlines
import SchemaSync.Proofs.Diff.Planning
import SchemaSync.Proofs.Diff.FixedPoint
import SchemaSync.Proofs.Diff.Database
import SchemaSync.Proofs.Diff.Phases
import SchemaSync.Proofs.Diff.Convergence
import SchemaSync.Proofs.Diff.Executable
import SchemaSync.Proofs.Diff.Detection
import SchemaSync.Proofs.Diff.Readiness
import SchemaSync.Proofs.Diff.Cascade
import SchemaSync.Proofs.Sql.Script
import SchemaSync.Proofs.Sql.Rebuild
import SchemaSync.Proofs.Catalog.Dangling
import SchemaSync.Proofs.Catalog.Failure
import SchemaSync.Proofs.Catalog.Renaming
import SchemaSync.Proofs.Diff.Indexes
import SchemaSync.Proofs.Run.Exchanges
import SchemaSync.Proofs.Run.Execution
import SchemaSync.Proofs.Rows.Groups
import SchemaSync.Proofs.Catalog.Drawing
import SchemaSync.Proofs.Catalog.Normal
import SchemaSync.Proofs.Rows.Columns
import SchemaSync.Proofs.Rows.RoundTrip
import SchemaSync.Proofs.Run.Reading
import SchemaSync.Proofs.Diff.ColumnDrops
import SchemaSync.Proofs.Sql.References
import SchemaSync.Proofs.Diff.Attachment
import SchemaSync.Proofs.Diff.Accounts
import SchemaSync.Proofs.Diff.Outcome
import SchemaSync.Proofs.Simulation
import SchemaSync.Proofs.Catalog.Strokes
import SchemaSync.Proofs.Catalog.Admission
import SchemaSync.Proofs.Model.Drawing
import SchemaSync.Proofs.Model.Consistency
import SchemaSync.Proofs.Rows.Slots
import SchemaSync.Proofs.Run.Acceptance
import SchemaSync.Proofs.Diff.Reordering
import SchemaSync.Proofs.Model.Order
import SchemaSync.Proofs.Catalog.KeyRules
import SchemaSync.Proofs.Rows.Sketch
import SchemaSync.Proofs.Rows.KeyResult
import SchemaSync.Proofs.Rows.Reassembly
import SchemaSync.Proofs.Rows.IndexListing
import SchemaSync.Proofs.Catalog.Restriction
import SchemaSync.Proofs.Rows.Passes
import SchemaSync.Proofs.Rows.Restriction
import SchemaSync.Proofs.Run.Restriction
import SchemaSync.Proofs.Model.Restriction
import SchemaSync.Proofs.Text.Reader
import SchemaSync.Proofs.Number.Numeral
import SchemaSync.Proofs.Sql.Token
import SchemaSync.Proofs.Sql.Placeholders
import SchemaSync.Proofs.Sql.NameStatement
import SchemaSync.Proofs.Sql.TableStatement
import SchemaSync.Proofs.Run.Watching
import SchemaSync.Proofs.Run.Pushing
