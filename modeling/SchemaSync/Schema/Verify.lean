import SchemaSync.Schema.Violation

/-!
# Verification of a snapshot

The structural rules as lists of violations, in the order in which they are reported. A part verifies
when its list is empty, and verification reports the first member of the list.
-/

namespace SchemaSync

/-- Succeed on an empty list of violations, else fail with the first. -/
def firstOf (violations : List Violation) : Except Violation Unit :=
  match violations with
  | [] => pure ()
  | v :: _ => throw v

/-- Verification succeeds exactly when nothing is violated. -/
theorem firstOf_eq_ok_iff {vs : List Violation} : firstOf vs = .ok () ↔ vs = [] := by
  cases vs <;> simp [firstOf, pure, Except.pure, throw, throwThe, MonadExceptOf.throw]

/-- The columns that stand a second time in a list, each where it stands again; `seen` are the
identities of the columns before. -/
def repeatedColumns (seen : List ColumnId) : List Column → List Column
  | [] => []
  | c :: cs =>
    if seen.contains c.id then c :: repeatedColumns seen cs else repeatedColumns (c.id :: seen) cs

namespace Index

/-- An index has columns of its own table only. -/
def violations (i : Index) : List Violation :=
  (i.columns.filter fun c => c.owner ≠ i.owner).map fun c =>
    .indexColumnElsewhere i.name c.name i.ownerName

def verify (i : Index) : Except Violation Unit := firstOf i.violations

end Index

namespace Unique

/-- A unique constraint has columns of its own table only, and none twice. -/
def violations (u : Unique) : List Violation :=
  ((u.columns.filter fun c => c.owner ≠ u.owner).map fun c =>
      .uniqueColumnElsewhere c.name u.ownerName) ++
    (repeatedColumns [] u.columns).map fun c => .uniqueRepeats c.name u.ownerName

def verify (u : Unique) : Except Violation Unit := firstOf u.violations

end Unique

namespace ForeignKey

/-- The columns of one pair belong to the target and to the own table. -/
def pairViolations (f : ForeignKey) (pair : Column × Column) : List Violation :=
  (if pair.2.owner = f.target then [] else [.foreignColumnElsewhere pair.2.name f.targetName]) ++
    (if pair.1.owner = f.owner then [] else [.localColumnElsewhere pair.1.name f.ownerName])

/-- A foreign key refers to another table and pairs as many local as foreign columns, at least one,
of the right tables and none twice. -/
def violations (f : ForeignKey) : List Violation :=
  (if f.target = f.owner then [.selfReference f.ownerName] else []) ++
  (if f.foreignColumns.isEmpty then [.noForeignColumns] else []) ++
  (if f.localColumns.isEmpty then [.noLocalColumns] else []) ++
  (if f.foreignColumns.length = f.localColumns.length then [] else [.unevenColumns]) ++
  (f.localColumns.zip f.foreignColumns).flatMap f.pairViolations ++
  (repeatedColumns [] f.localColumns).map (fun c => .localRepeats c.name) ++
  (repeatedColumns [] f.foreignColumns).map (fun c => .foreignRepeats c.name)

def verify (f : ForeignKey) : Except Violation Unit := firstOf f.violations

end ForeignKey

namespace Table

/-- The filled primary key slots in ascending order. -/
def sortedSlots (t : Table) : List Int := t.slots.keys.mergeSort fun a b => decide (a ≤ b)

def slotsUpTo (n : Nat) : List Int := (List.range n).map fun (i : Nat) => (i : Int) + 1

/-- The primary key fills the slots `1`, `2`, … with columns of the table of different names. -/
def primaryKeyViolations (t : Table) : List Violation :=
  let names := columnNames t.slots.values
  (if t.sortedSlots = slotsUpTo t.slots.keys.length then []
    else [.slotsUnassigned t.name t.sortedSlots]) ++
  ((t.slots.values.filter fun c => (t.columns.get? c.name).map Column.id ≠ some c.id).map fun c =>
    .keyColumnElsewhere c.name t.name) ++
  (if names.Nodup then [] else [.keyRepeats t.name names])

def verifyPrimaryKey (t : Table) : Except Violation Unit := firstOf t.primaryKeyViolations

/-- Every column stands under its own name on its own table. -/
def columnViolations (t : Table) : List Violation :=
  (t.columns.entries.filter fun e => e.2.owner ≠ t.id ∨ e.2.name ≠ e.1).map fun e =>
    .columnMisplaced e.1 t.name

/-- Every index stands under its own name on its own table and keeps its rules. -/
def indexViolations (t : Table) : List Violation :=
  t.indexes.entries.flatMap fun e =>
    (if e.2.owner ≠ t.id ∨ e.2.name ≠ e.1 then [.indexMisplaced e.1 t.name] else []) ++
      e.2.violations

/-- Every foreign key stands on its own table and keeps its rules. -/
def foreignKeyViolations (t : Table) : List Violation :=
  t.foreignKeys.flatMap fun f =>
    (if f.owner ≠ t.id then [.foreignKeyMisplaced t.name] else []) ++ f.violations

/-- Every unique constraint stands on its own table and keeps its rules. -/
def uniqueViolations (t : Table) : List Violation :=
  t.uniques.flatMap fun u =>
    (if u.owner ≠ t.id then [.uniqueMisplaced t.name] else []) ++ u.violations

/-- The violations of a table, in the order in which they are reported. -/
def violations (t : Table) : List Violation :=
  t.primaryKeyViolations ++ t.columnViolations ++ t.indexViolations ++ t.foreignKeyViolations ++
    t.uniqueViolations

def verify (t : Table) : Except Violation Unit := firstOf t.violations

end Table

namespace Snapshot

/-- Whether a table is the one that the snapshot holds under the name it is called by. -/
def holds (s : Snapshot) (name : String) (t : TableId) : Bool :=
  (s.tables.get? name).map Table.id == some t

/-- The index names of a table that a table before it holds as well, with the name of that table. -/
def indexClashes (earlier : List (String × Table)) (key : String) (t : Table) : List Violation :=
  t.indexes.keys.filterMap fun name =>
    (earlier.find? fun e => e.2.indexes.contains name).map fun e =>
      .indexOnTwoTables name e.1 key

/-- The violations of one entry of a snapshot; `earlier` are the entries before it. -/
def entryViolations (s : Snapshot) (earlier : List (String × Table)) (key : String) (t : Table) :
    List Violation :=
  (if t.schema ≠ s.id ∨ t.name ≠ key then [.tableMisplaced key] else []) ++
    t.violations ++
    indexClashes earlier key t ++
    ((t.foreignKeys.filter fun f => !s.holds f.targetName f.target).map fun f =>
      .targetOutside key f.targetName)

/-- The violations of the entries that are left; `earlier` are the entries before them. -/
def violationsFrom (s : Snapshot) (earlier : List (String × Table)) :
    List (String × Table) → List Violation
  | [] => []
  | e :: rest => s.entryViolations earlier e.1 e.2 ++ s.violationsFrom (earlier ++ [e]) rest

def violations (s : Snapshot) : List Violation := s.violationsFrom [] s.tables.entries

def verify (s : Snapshot) : Except Violation Unit := firstOf s.violations

end Snapshot
end SchemaSync
