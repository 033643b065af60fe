import SchemaSync.Diff.Change
import SchemaSync.Schema.Canonical

/-!
# Classification

Which tables have to be rebuilt and why, which tables have to let go of their references meanwhile, and
which indexes are to be removed and added.

A column's type, nullability and default, and a table's columns, primary key, unique constraints and
foreign keys, cannot be changed in place; any such change rebuilds the table. Removed columns and indexes
are dealt with in place.
-/

namespace SchemaSync

structure Rebuild where
  current : Table
  desired : Table
  reasons : List Reason

namespace Rebuild

def isStructural (r : Rebuild) : Bool := r.reasons.any Reason.isStructural

end Rebuild

namespace Table

def columnReasons (table : String) (c d : Column) : List Reason :=
  (if c.type = d.type then [] else [.typeChanged c.name table]) ++
    (if c.notNull = d.notNull then [] else [.nullabilityChanged c.name table]) ++
    (if c.default = d.default then [] else [.defaultChanged c.name table c.default d.default])

/-- The reasons in the definitions of the columns that both forms of a table have. -/
def editReasons (current desired : Table) : List Reason :=
  current.columns.values.flatMap fun c =>
    match desired.columns.get? c.name with
    | none => []
    | some d => if c.sameDefinition d then [] else columnReasons current.name c d

/-- The reasons in columns to be added, keys, constraints and unique indexes. -/
def structuralReasons (current desired : Table) : List Reason :=
  (if desired.columns.keys.all current.columns.contains then [] else [.addedColumns]) ++
  (if current.canonicalPrimaryKey = desired.canonicalPrimaryKey then [] else [.primaryKey]) ++
  (if current.canonicalUniques = desired.canonicalUniques then [] else [.uniques]) ++
  (if current.canonicalForeignKeys = desired.canonicalForeignKeys then [] else [.foreignKeys]) ++
  (if current.indexes.values.any Index.unique then [.uniqueIndexes] else [])

def rebuildReasons (current desired : Table) : List Reason :=
  editReasons current desired ++ structuralReasons current desired

end Table

namespace Snapshot

def rebuilds (current desired : Snapshot) : OrderedMap String Rebuild :=
  current.tables.filterMap fun name t =>
    (desired.tables.get? name).bind fun d =>
      let reasons := t.rebuildReasons d
      if reasons.isEmpty then none else some ⟨t, d, reasons⟩

/-- The tables whose references are detached while tables are rebuilt: the rebuilt ones, and the kept
ones that refer to one rebuilt for a structural reason. -/
def affected (current desired : Snapshot) : List String :=
  (rebuilds current desired).entries.flatMap fun e =>
    (if e.2.isStructural then
      ((current.referencingTables.get? e.1).getD []).filter desired.tables.contains
    else []) ++ [e.1]

/-- Whether an index moved to another table or changed its shape. -/
def indexChanged (current desired : Index) : Bool :=
  current.ownerName != desired.ownerName || !current.sameShape desired

def indexesByName (s : Snapshot) : OrderedMap String Index :=
  .ofList (s.allIndexes.map fun i => (i.name, i))

/-- Enter indexes whose names are not there yet. -/
def withIndexes (known : OrderedMap String Index) (more : List Index) : OrderedMap String Index :=
  more.foldl (fun m i => m.insertNew i.name i) known

/-- The indexes to be removed: those that are gone or changed on tables that stay, and every index of a
rebuilt table. Dropping a table drops its indexes. -/
def indexesToRemove (current desired : Snapshot) : OrderedMap String Index :=
  let wanted := desired.indexesByName
  -- On a table that goes, the index goes with it.
  let changed := current.indexesByName.filter fun name i =>
    desired.tables.contains i.ownerName &&
      (match wanted.get? name with
        | none => true
        | some d => indexChanged i d)
  withIndexes changed
    ((rebuilds current desired).values.flatMap fun r => r.current.indexes.values)

/-- The indexes to be added: those that are new or changed, and every index of a rebuilt table. -/
def indexesToAdd (current desired : Snapshot) : OrderedMap String Index :=
  let present := current.indexesByName
  let changed := desired.indexesByName.filter fun name i =>
    match present.get? name with
    | none => true
    | some c => indexChanged c i
  withIndexes changed
    ((rebuilds current desired).values.flatMap fun r => r.desired.indexes.values)

def indexNamesOn (table : String) (indexes : OrderedMap String Index) : List String :=
  (indexes.values.filter fun i => i.ownerName == table).map Index.name

def removedColumns (current desired : Table) : List Column :=
  current.columns.values.filter fun c => !desired.columns.contains c.name

/-- The change of every table that stands in both snapshots, in the order of `current`. -/
def changes (current desired : Snapshot) : OrderedMap String Change :=
  let toAdd := indexesToAdd current desired
  let toRemove := indexesToRemove current desired
  let rebuilt := rebuilds current desired
  current.tables.filterMap fun name t =>
    (desired.tables.get? name).map fun d =>
      match rebuilt.get? name with
      | some r => .recreate r.reasons
      | none => .ofInPlace
          { addedColumns := []
            removedColumns := columnNames (removedColumns t d)
            addedIndexes := indexNamesOn name toAdd
            removedIndexes := indexNamesOn name toRemove }

end Snapshot
end SchemaSync
