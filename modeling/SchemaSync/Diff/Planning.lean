import SchemaSync.Diff.Classification
import SchemaSync.Diff.Plan
import SchemaSync.Schema.Verify

/-!
# Planning

The plan that turns one snapshot into another. Both are verified first, and the desired one must hold no
unique index. The operations come in a fixed order: drop indexes, detach references, create tables, drop
tables, drop columns, rebuild tables, attach references, create indexes.
-/

namespace SchemaSync

inductive PlanError where
  /-- Creation mode needs a snapshot without tables. -/
  | creationMode
  | violation (cause : Violation)
  | missingTable (name : String)
  deriving DecidableEq

def PlanError.message : PlanError → String
  | creationMode => "Creation mode is not supported for existing tables"
  | violation cause => cause.message
  | missingTable name => "Classification refers to missing table " ++ name

namespace Snapshot

def requireTable (s : Snapshot) (name : String) : Except PlanError Table :=
  match s.tables.get? name with
  | some t => pure t
  | none => throw (.missingTable name)

/-- The unique indexes of a snapshot, each a violation of the desired form. -/
def uniqueIndexes (s : Snapshot) : List Violation :=
  s.tables.values.flatMap fun t =>
    (t.indexes.values.filter Index.unique).map fun i => .uniqueIndex i.name t.name

/-- Apply `f` to each member of a list and its number, counted from `start`. -/
def numbered {α β : Type} (f : Nat → α → β) (start : Nat) : List α → List β
  | [] => []
  | a :: as => f start a :: numbered f (start + 1) as

/-- The tables of the first snapshot whose names the second does not hold. -/
def tablesWithout (s other : Snapshot) : List Table :=
  (s.tables.filter fun name _ => !other.tables.contains name).values

def indexDrops (current desired : Snapshot) : List Operation :=
  (indexesToRemove current desired).values.map fun i => .dropIndex i.ownerName i.name

/-- Detach the references of the affected tables. -/
def referenceDrops (current desired : Snapshot) : List Operation :=
  let affected := affected current desired
  current.allForeignKeys.filterMap fun f =>
    f.singleColumn?.bind fun c =>
      if affected.contains f.ownerName then some (.dropForeignKey f.ownerName c) else none

/-- Create the new tables, without their references. -/
def tableCreations (current desired : Snapshot) : List Operation :=
  (desired.tablesWithout current).map fun t => .createTable t false

def tableDrops (current desired : Snapshot) : List Operation :=
  (current.tablesWithout desired).map fun t => .dropTable t.name

def columnDrops (current desired : Snapshot) : List Operation :=
  let rebuilt := rebuilds current desired
  current.tables.entries.flatMap fun e =>
    match desired.tables.get? e.1 with
    | none => []
    | some d =>
      if rebuilt.contains e.1 then []
      else (removedColumns e.2 d).map fun c => .dropColumn e.2.name c.name

/-- Rebuild tables, the `k`-th one with the `k`-th suffix. -/
def tableRebuilds (suffixes : Nat → String) (current desired : Snapshot) : List Operation :=
  numbered (fun k r => .recreateTable r.current r.desired r.reasons (suffixes k)) 0
    (rebuilds current desired).values

/-- Attach the references of the affected and of the new tables. -/
def referenceAdditions (current desired : Snapshot) : List Operation :=
  let affected := affected current desired
  let added := (desired.tablesWithout current).map Table.name
  desired.allForeignKeys.filterMap fun f =>
    f.singleColumn?.bind fun c =>
      if affected.contains f.ownerName || added.contains f.ownerName then
        some (.addForeignKey f.ownerName c f)
      else none

def indexCreations (current desired : Snapshot) : List Operation :=
  (indexesToAdd current desired).values.map fun i =>
    .createIndex i.ownerName i.name (columnNames i.columns)

/-- The operations of a plan. In creation mode no reference is attached. -/
def operations (suffixes : Nat → String) (current desired : Snapshot) (creationMode : Bool) :
    List Operation :=
  indexDrops current desired ++ referenceDrops current desired ++ tableCreations current desired ++
    tableDrops current desired ++ columnDrops current desired ++
    tableRebuilds suffixes current desired ++
    (if creationMode then [] else referenceAdditions current desired) ++
    indexCreations current desired

def plan (suffixes : Nat → String) (current desired : Snapshot) (creationMode : Bool) : Plan :=
  let changes := changes current desired
  { operations := operations suffixes current desired creationMode
    summary := .ofChanges ((desired.tablesWithout current).map Table.name)
      ((current.tablesWithout desired).map Table.name) changes
    changes
    creationMode }

def checkPlannable (current desired : Snapshot) (creationMode : Bool) : Except PlanError Unit := do
  if creationMode && !current.isEmpty then throw .creationMode
  current.verify.mapError .violation
  desired.verify.mapError .violation
  (firstOf desired.uniqueIndexes).mapError .violation

/-- The classification refers to tables by name, so each rebuilt table must be found in both snapshots. -/
def checkRebuilds (current desired : Snapshot) : Except PlanError Unit :=
  (rebuilds current desired).keys.forM fun name => do
    discard (current.requireTable name)
    discard (desired.requireTable name)

/-- The plan that turns `current` into `desired`; the `k`-th rebuilt table gets the `k`-th suffix. -/
def diff (suffixes : Nat → String) (current desired : Snapshot) (creationMode : Bool) :
    Except PlanError Plan := do
  checkPlannable current desired creationMode
  checkRebuilds current desired
  pure (plan suffixes current desired creationMode)

end Snapshot
end SchemaSync
