import SchemaSync.Execution
import SchemaSync.Rows.Assembly
import SchemaSync.Schema.Describe
import SchemaSync.Text.Lines

/-!
# Pushing a schema

A push reads the present schema from the database, builds the desired one from declarations, plans how to
get from the one to the other, reports the plan and applies it.
-/

namespace SchemaSync

variable {σ : Type}

/-! ### Reading the database -/

namespace Reading

/-- Ask one catalog query and read its rows; the cursor is closed in any case. -/
def ask {α : Type} (conn : Connection σ) (q : Rows.Query) (read : Rows.NamedRow → Rows.Checked α) :
    Run σ (List α) :=
  Run.withCursor conn do
    let answer ← Run.call conn (.query q)
    Run.ofExcept .row (Rows.readRows read answer.names answer.rows)

def answers (conn : Connection σ) : Run σ Rows.Answers := do
  let columns ← ask conn .columns Rows.ColumnRow.read
  let foreignKeys ← ask conn .foreignKeys Rows.ForeignKeyRow.read
  let indexes ← ask conn .indexes Rows.IndexRow.read
  pure { columns, foreignKeys, indexes }

def logWarnings (warnings : List Rows.Warning) : Run σ Unit :=
  warnings.forM fun w => Run.log .warning .reading w.message

/-- The schema of the database: a catalog and its snapshot. -/
def schema (conn : Connection σ) (start : Option String) : Run σ (Catalog × SnapshotId) := do
  -- All three answers are read before a table is made.
  let rows ← answers conn
  let (result, draft) := (Rows.assemble start rows).run ⟨.empty, []⟩
  logWarnings draft.warnings
  let s ← Run.ofExcept .edit result
  pure (draft.catalog, s)

end Reading

def Model.schema (start : Option String) (models : List Model) :
    Except Model.Error (Catalog × SnapshotId) :=
  let (result, c) := (Model.assemble start models).run .empty
  result.map fun s => (c, s)

/-! ### Reporting -/

inductive Reporter where
  /-- Every report is kept as it is. -/
  | recording
  /-- Reports go to the log, a summary line by line. -/
  | logging
  | silent
  /-- Reports are printed. -/
  | terminal

def Reporter.tell (r : Reporter) (report : Report) : Run σ Unit :=
  match r, report with
  | recording, _ => Run.record (.reported report)
  | silent, _ => pure ()
  | logging, .noChanges => Run.log .info .reporting "No changes to apply"
  | logging, .summary text =>
    (Text.Lines.lines text).forM fun line => Run.log .info .reporting line
  | logging, .statement sql => Run.log .info .reporting sql
  | terminal, .noChanges => Run.printLine "No changes to apply."
  | terminal, .summary text => do
    Run.printLine text
    Run.printLine ""
  | terminal, .statement sql => Run.printLine (sql ++ ";")

/-! ### Pushing -/

structure PushOptions where
  /-- Create all tables in an empty database, without references over single columns. -/
  creationMode : Bool
  /-- Consider only tables whose names have this start. -/
  start : Option String
  /-- Report the plan without applying it. -/
  dryRun : Bool

/-- The plan that brings the database to the declared schema; nothing is applied. -/
def planPush (conn : Connection σ) (models : List Model) (options : PushOptions)
    (suffixes : Nat → String) : Run σ Plan := do
  let (c, present) ← Reading.schema conn options.start
  let (d, wanted) ← Run.ofExcept .ofModel (Model.schema options.start models)
  let current := c.snapshot present
  let desired := d.snapshot wanted
  Run.log .debug .planning
    ("Current schema: " ++ current.shown ++ ", desired schema: " ++ desired.shown)
  Run.ofExcept .plan (Snapshot.diff suffixes current desired options.creationMode)

/-- Bring the database to the declared schema: plan, report, and apply unless it is a dry run. -/
def push (conn : Connection σ) (models : List Model) (options : PushOptions) (reporter : Reporter)
    (suffixes : Nat → String) : Run σ Plan := do
  let plan ← planPush conn models options suffixes
  if plan.isEmpty then
    reporter.tell .noChanges
    return plan
  reporter.tell (.summary plan.summary.describe)
  -- Every statement is written before the first is reported or applied.
  let statements ← Run.ofExcept .render plan.statements
  statements.forM fun sql => reporter.tell (.statement sql)
  if options.dryRun then
    Run.log .info .planning ("Dry run, " ++ statements.length.repr ++ " statements not applied")
  else
    Execution.apply conn statements
  pure plan

end SchemaSync
