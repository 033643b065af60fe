import SchemaSync.Proofs.Diff.Database
import SchemaSync.Proofs.Rows.Groups

/-!
# Reports of a database

What a database reports of a snapshot that it holds: a row for every column, and groups of rows for foreign
keys, unique constraints and indexes. The columns come in order. The rows of groups may come shuffled, as
long as each group goes by a name of its own; the groups then stand in the order of their first rows. A
database makes an index for a primary key as well and reports it, so there may be groups of that kind.

Rows are reported as cells, and reading the cells gives the rows back: `readRows_map`.
-/

namespace SchemaSync

/-! ## Columns -/

def Table.columnRow (t : Table) (x : Column) : Rows.ColumnRow where
  table := t.name
  column := x.name
  type := x.type.keyword
  slot := t.slotOf x.id
  notNull := if x.notNull then 1 else 0
  default := x.default

def Snapshot.columnRows (s : Snapshot) : List Rows.ColumnRow :=
  s.tables.values.flatMap fun t => t.columns.values.map t.columnRow

namespace Rows

/-! ## Groups -/

structure KeyGroup where
  table : String
  /-- The number of the foreign key on its table. -/
  number : Int
  key : KeyForm
  deriving DecidableEq

namespace KeyGroup

def name (g : KeyGroup) : String × Int := (g.table, g.number)

def row (g : KeyGroup) (position : Nat) (pair : String × String) : ForeignKeyRow where
  table := g.table
  key := g.number
  position := position
  target := g.key.target
  localColumn := pair.1
  foreignColumn := some pair.2
  onUpdate := g.key.onUpdate.keyword
  onDelete := g.key.onDelete.keyword

def rows (g : KeyGroup) : List ForeignKeyRow :=
  (g.key.localColumns.zip g.key.foreignColumns).mapIdx g.row

end KeyGroup

/-- A part of the index of a primary key. -/
structure KeyPart where
  unique : Int
  column : Option String
  position : Int
  deriving DecidableEq

/-- What an index is there for. -/
inductive IndexContent where
  | primaryKey (parts : List KeyPart)
  | unique (columns : List String)
  | index (columns : List String)
  deriving DecidableEq

structure IndexGroup where
  table : String
  index : String
  content : IndexContent
  deriving DecidableEq

namespace IndexGroup

def keyRow (table index : String) (p : KeyPart) : IndexRow :=
  ⟨table, index, p.unique, "pk", p.column, p.position⟩

def uniqueRow (table index : String) (position : Nat) (column : String) : IndexRow :=
  ⟨table, index, 1, "u", some column, position⟩

def indexRow (table index : String) (position : Nat) (column : String) : IndexRow :=
  ⟨table, index, 0, "c", some column, position⟩

def name (g : IndexGroup) : String × String := (g.table, g.index)

def rows (g : IndexGroup) : List IndexRow :=
  match g.content with
  | .primaryKey parts => parts.map (keyRow g.table g.index)
  | .unique columns => columns.mapIdx (uniqueRow g.table g.index)
  | .index columns => columns.mapIdx (indexRow g.table g.index)

def isPrimaryKey (g : IndexGroup) : Bool :=
  match g.content with
  | .primaryKey _ => true
  | _ => false

def unique? (table : String) (g : IndexGroup) : Option (List String) :=
  match g.content with
  | .unique columns => if g.table = table then some columns else none
  | _ => none

def index? (table : String) (g : IndexGroup) : Option (String × List String) :=
  match g.content with
  | .index columns => if g.table = table then some (g.index, columns) else none
  | _ => none

end IndexGroup

/-- The foreign keys and indexes that a database reports. -/
structure Report where
  keys : List KeyGroup
  indexes : List IndexGroup
  deriving DecidableEq

namespace Report

def keysOf (r : Report) (table : String) : List KeyForm :=
  (r.keys.filter fun g => g.table = table).map KeyGroup.key

def uniquesOf (r : Report) (table : String) : List (List String) := r.indexes.filterMap (·.unique? table)

def indexesOf (r : Report) (table : String) : List (String × List String) :=
  r.indexes.filterMap (·.index? table)

/-- The report lists what the tables of a snapshot have, each list in some order, and nothing else but
indexes of primary keys. -/
structure Lists (r : Report) (s : Snapshot) : Prop where
  keys : ∀ name t, s.tables.get? name = some t →
    (r.keysOf name).Perm (t.foreignKeys.map ForeignKey.form)
  uniques : ∀ name t, s.tables.get? name = some t →
    (r.uniquesOf name).Perm (t.uniques.map fun u => columnNames u.columns)
  indexes : ∀ name t, s.tables.get? name = some t →
    (r.indexesOf name).Perm (t.indexes.entries.map fun e => (e.1, columnNames e.2.columns))
  keyTable : ∀ g ∈ r.keys, s.tables.contains g.table = true
  indexTable : ∀ g ∈ r.indexes, g.isPrimaryKey = true ∨ s.tables.contains g.table = true

/-- The test of what a report lists. -/
def isListOf (r : Report) (s : Snapshot) : Bool :=
  (s.tables.entries.all fun e =>
    (r.keysOf e.1).isPerm (e.2.foreignKeys.map ForeignKey.form) &&
      (r.uniquesOf e.1).isPerm (e.2.uniques.map fun u => columnNames u.columns) &&
      (r.indexesOf e.1).isPerm (e.2.indexes.entries.map fun e => (e.1, columnNames e.2.columns))) &&
    (r.keys.all fun g => s.tables.contains g.table) &&
    r.indexes.all fun g => g.isPrimaryKey || s.tables.contains g.table

theorem isListOf_iff {r : Report} {s : Snapshot} : r.isListOf s = true ↔ r.Lists s := by
  simp only [isListOf, Bool.and_eq_true, Bool.or_eq_true, List.all_eq_true, List.isPerm_iff, Prod.forall,
    OrderedMap.mem_entries_iff_get?]
  constructor
  · intro h
    obtain ⟨⟨htable, hkeys⟩, hindexes⟩ := h
    exact ⟨fun name t ht => (htable name t ht).1.1, fun name t ht => (htable name t ht).1.2,
      fun name t ht => (htable name t ht).2, hkeys, hindexes⟩
  · intro h
    exact ⟨⟨fun name t ht => ⟨⟨h.keys name t ht, h.uniques name t ht⟩, h.indexes name t ht⟩,
      h.keyTable⟩, h.indexTable⟩

end Report

/-- Answers that report a snapshot: its columns in order, and the rows of groups of different names, in
whatever order, the groups themselves in the order of their first rows. -/
structure Answers.Report (a : Answers) (s : Snapshot) (r : Rows.Report) : Prop where
  columns : a.columns = s.columnRows
  keys : a.foreignKeys.Perm (r.keys.flatMap KeyGroup.rows)
  keyOrder : r.keys.map KeyGroup.name = groupKeys (fun x => (x.table, x.key)) a.foreignKeys
  indexes : a.indexes.Perm (r.indexes.flatMap IndexGroup.rows)
  indexOrder : r.indexes.map IndexGroup.name = groupKeys (fun x => (x.table, x.index)) a.indexes

/-! ## Rows of a group -/

/-- Rows numbered by their places are in the order of their positions. -/
theorem pairwise_mapIdx {α β : Type} {position : β → Int} {f : Nat → α → β}
    (hposition : ∀ i x, position (f i x) = i) (xs : List α) :
    (xs.mapIdx f).Pairwise fun a b => position a < position b := by
  rw [List.pairwise_iff_getElem]
  intro i j hi hj hij
  rw [List.getElem_mapIdx, List.getElem_mapIdx, hposition, hposition]
  omega

/-- What a row says regardless of its place. -/
theorem map_mapIdx {α β γ : Type} {f : Nat → α → β} {g : β → γ} {h : α → γ}
    (hg : ∀ i x, g (f i x) = h x) (xs : List α) : (xs.mapIdx f).map g = xs.map h := by
  apply List.ext_getElem
  · rw [List.length_map, List.length_mapIdx, List.length_map]
  · intro i hi hj
    rw [List.getElem_map, List.getElem_mapIdx, List.getElem_map, hg]

theorem KeyGroup.mem_rows {g : KeyGroup} {x : ForeignKeyRow} (h : x ∈ g.rows) :
    (x.table, x.key) = g.name ∧ x.target = g.key.target ∧ x.onUpdate = g.key.onUpdate.keyword ∧
      x.onDelete = g.key.onDelete.keyword := by
  obtain ⟨i, hi, rfl⟩ := List.mem_mapIdx.mp h
  exact ⟨rfl, rfl, rfl, rfl⟩

theorem IndexGroup.name_of_mem_rows {g : IndexGroup} {x : IndexRow} (h : x ∈ g.rows) :
    (x.table, x.index) = g.name := by
  unfold rows at h
  cases hg : g.content with
  | primaryKey parts =>
      rw [hg] at h
      obtain ⟨p, -, rfl⟩ := List.mem_map.mp h
      rfl
  | unique columns =>
      rw [hg] at h
      obtain ⟨i, hi, rfl⟩ := List.mem_mapIdx.mp h
      rfl
  | index columns =>
      rw [hg] at h
      obtain ⟨i, hi, rfl⟩ := List.mem_mapIdx.mp h
      rfl

/-! ## Cells -/

def Cell.ofText? : Option String → Cell
  | none => .null
  | some s => .text s

theorem readTextOrNull_ofText? (s : Option String) : readTextOrNull (.ofText? s) = .ok s := by
  cases s <;> rfl

def ColumnRow.cells (r : ColumnRow) : List Cell :=
  [.text r.table, .text r.column, .text r.type, .int r.slot, .int r.notNull, .ofText? r.default]

def ForeignKeyRow.cells (r : ForeignKeyRow) : List Cell :=
  [.text r.table, .int r.key, .int r.position, .text r.target, .text r.localColumn,
    .ofText? r.foreignColumn, .text r.onUpdate, .text r.onDelete]

def IndexRow.cells (r : IndexRow) : List Cell :=
  [.text r.table, .text r.index, .int r.unique, .text r.origin, .ofText? r.column, .int r.position]

theorem ColumnRow.read_cells (r : ColumnRow) :
    ColumnRow.read (nameCells Query.columns.columnNames r.cells) = .good r := by
  simp [ColumnRow.read, field, cell?, nameCells, Query.columnNames, cells, List.lookup,
    readText, readInt, readTextOrNull_ofText?, pure, Except.pure]
  rfl

theorem ForeignKeyRow.read_cells (r : ForeignKeyRow) :
    ForeignKeyRow.read (nameCells Query.foreignKeys.columnNames r.cells) = .good r := by
  simp [ForeignKeyRow.read, field, cell?, nameCells, Query.columnNames, cells, List.lookup,
    readText, readInt, readTextOrNull_ofText?, pure, Except.pure]
  rfl

theorem IndexRow.read_cells (r : IndexRow) :
    IndexRow.read (nameCells Query.indexes.columnNames r.cells) = .good r := by
  simp [IndexRow.read, field, cell?, nameCells, Query.columnNames, cells, List.lookup,
    readText, readInt, readTextOrNull_ofText?, pure, Except.pure]
  rfl

/-- Rows whose cells can be read are read back. -/
theorem readRows_map {α : Type} {read : NamedRow → Checked α} {names : List String}
    {cells : α → List Cell} (h : ∀ r, read (nameCells names (cells r)) = .good r) (rows : List α) :
    readRows read names (rows.map cells) = .ok rows := by
  induction rows with
  | nil => rfl
  | cons r rows ih =>
      rw [List.map_cons, readRows, h, ih]
      rfl

end Rows
end SchemaSync
