import SchemaSync.Proofs.Catalog.Edits

/-!
# Sound snapshots

A verified snapshot that edits have reached is sound: each of its keys, constraints and indexes is made
of columns that the right table holds under their names, so a constraint may be read as a list of names
without loss, and names repeat where identities repeat. Verification alone does not give this, since it
compares identities; that no column is ever lost from its table is `Catalog.Reachable.linked`. The main
statement is `Snapshot.Reachable.sound`.
-/

namespace SchemaSync

/-- A column as a table holds it under its name. -/
def Table.Holds (t : Table) (x : Column) : Prop := t.columns.get? x.name = some x

/-- A table whose parts are made of columns that the table holds, and go by the table's name. -/
structure Table.Sound (t : Table) : Prop where
  column : ∀ name x, t.columns.get? name = some x → x.name = name
  keyHeld : ∀ x ∈ t.slots.values, t.Holds x
  keyNames : (columnNames t.slots.values).Nodup
  unique : ∀ u ∈ t.uniques, (∀ x ∈ u.columns, t.Holds x) ∧ (columnNames u.columns).Nodup
  index : ∀ name i, t.indexes.get? name = some i →
    i.name = name ∧ i.ownerName = t.name ∧ ∀ x ∈ i.columns, t.Holds x
  foreignKey : ∀ f ∈ t.foreignKeys, f.ownerName = t.name ∧ f.Verified ∧
    (∀ x ∈ f.localColumns, t.Holds x) ∧ (columnNames f.localColumns).Nodup

/-- A snapshot of sound tables under their own names. No index name occurs on two tables, and every
foreign key refers to columns that its target holds in the snapshot. -/
structure Snapshot.Sound (s : Snapshot) : Prop where
  table : ∀ name t, s.tables.get? name = some t → t.name = name ∧ t.Sound
  indexNames : ∀ a t b u, s.tables.get? a = some t → s.tables.get? b = some u →
    ∀ n ∈ t.indexes.keys, u.indexes.contains n = true → a = b
  target : ∀ name t, s.tables.get? name = some t → ∀ f ∈ t.foreignKeys,
    ∃ d, s.tables.get? f.targetName = some d ∧ (∀ x ∈ f.foreignColumns, d.Holds x) ∧
      (columnNames f.foreignColumns).Nodup

def Snapshot.Reachable (s : Snapshot) : Prop :=
  ∃ c : Catalog, c.Reachable ∧ ∃ id, c.snapshots.Issued id ∧ c.snapshot id = s

def Table.Reachable (t : Table) : Prop := ∃ c : Catalog, c.Reachable ∧ ∃ id, c.table id = t

/-- The first snapshot that a list of commands makes. -/
def Snapshot.ofCommands (ks : List Edit.Command) : Snapshot :=
  (Edit.Command.run .empty ks).snapshot ⟨0⟩

theorem Snapshot.reachable_ofCommands {ks : List Edit.Command}
    (hks : Edit.Command.AllIssued .empty ks)
    (hfirst : (Edit.Command.run .empty ks).snapshots.Issued ⟨0⟩) : (ofCommands ks).Reachable :=
  ⟨_, Catalog.Reachable.empty.run hks, ⟨0⟩, hfirst, rfl⟩

/-- Columns of different identities that one table holds have different names. -/
theorem Table.nodup_columnNames {t : Table} {xs : List Column} (hids : (xs.map Column.id).Nodup)
    (hheld : ∀ x ∈ xs, t.Holds x) : (columnNames xs).Nodup := by
  refine List.Nodup.map_on ?_ hids.of_map
  intro x hx y hy hname
  have hxheld : t.columns.get? x.name = some x := hheld x hx
  have hyheld : t.columns.get? y.name = some y := hheld y hy
  rw [hname, hyheld] at hxheld
  exact (Option.some.inj hxheld).symm

namespace Catalog

variable {c : Catalog}

/-- Where a name of a resolved table leads. -/
theorem get?_columns_table (c : Catalog) (t : TableId) (name : String) :
    (c.table t).columns.get? name = (c.findColumn? t name).map c.column :=
  OrderedMap.get?_map _ _ _

theorem get?_indexes_table (c : Catalog) (t : TableId) (name : String) :
    (c.table t).indexes.get? name = ((c.tables.get t).indexes.get? name).map c.index :=
  OrderedMap.get?_map _ _ _

/-- The key columns of a resolved table. -/
theorem values_slots_table (c : Catalog) (t : TableId) :
    (c.table t).slots.values = (c.tables.get t).slots.values.map c.column :=
  OrderedMap.values_map _ _

/-- Where a name of a resolved snapshot leads. -/
theorem get?_tables_snapshot (c : Catalog) (s : SnapshotId) (name : String) :
    (c.snapshot s).tables.get? name = (c.findTable? s name).map c.table :=
  OrderedMap.get?_map _ _ _

/-- A column that has been made is held by the table that it was made on. -/
theorem Linked.holds (hl : c.Linked) {id : ColumnId} (hid : c.columns.Issued id) {t : TableId}
    (ht : (c.column id).owner = t) : (c.table t).Holds (c.column id) := by
  have hheld : c.findColumn? t (c.column id).name = some id := ht ▸ hl.held id hid
  rw [Table.Holds, get?_columns_table, hheld, Option.map_some]

/-- Columns that have been made, each on the table `t`, are held by `t`. -/
theorem Linked.holds_of_mem_map (hl : c.Linked) {ids : List ColumnId}
    (hids : ∀ id ∈ ids, c.columns.Issued id) {t : TableId}
    (howner : ∀ x ∈ ids.map c.column, x.owner = t) : ∀ x ∈ ids.map c.column, (c.table t).Holds x := by
  intro x hx
  obtain ⟨id, hid, rfl⟩ := List.mem_map.mp hx
  exact hl.holds (hids id hid) (howner _ hx)

theorem Linked.table_sound (hl : c.Linked) {t : TableId} (hv : (c.table t).Verified) :
    (c.table t).Sound where
  column := fun name x h => (hv.column name x h).2
  keyHeld := by
    intro x hx
    -- The table holds under this name a column of this identity, and an identity has one column.
    have hkey := hv.key x hx
    rw [values_slots_table, List.mem_map] at hx
    obtain ⟨id, -, rfl⟩ := hx
    rw [get?_columns_table, Option.map_map] at hkey
    obtain ⟨id', hfind, hsame⟩ := Option.map_eq_some_iff.mp hkey
    have hid : id' = id := hsame
    rw [Table.Holds, get?_columns_table, hfind, hid, Option.map_some]
  keyNames := hv.keyNames
  unique := by
    intro u hu
    obtain ⟨howner, hverified⟩ := hv.unique u hu
    obtain ⟨k, -, rfl⟩ := List.mem_map.mp hu
    have hheld := hl.holds_of_mem_map (hl.unique k) fun x hx => (hverified.owner x hx).trans howner
    exact ⟨hheld, Table.nodup_columnNames hverified.nodup hheld⟩
  index := by
    intro name i hi
    obtain ⟨howner, hname, hcolumns⟩ := hv.index name i hi
    rw [get?_indexes_table] at hi
    obtain ⟨k, -, rfl⟩ := Option.map_eq_some_iff.mp hi
    refine ⟨hname, congrArg c.tableName howner, ?_⟩
    exact hl.holds_of_mem_map (hl.index k) fun x hx => (hcolumns x hx).trans howner
  foreignKey := by
    intro f hf
    obtain ⟨howner, hverified⟩ := hv.foreignKey f hf
    obtain ⟨k, -, rfl⟩ := List.mem_map.mp hf
    have hheld := hl.holds_of_mem_map (hl.localColumn k)
      fun x hx => (hverified.localOwner x hx).trans howner
    exact ⟨congrArg c.tableName howner, hverified, hheld,
      Table.nodup_columnNames hverified.localNodup hheld⟩

/-- A verified snapshot of a linked catalog is sound. -/
theorem Linked.snapshot_sound (hl : c.Linked) {s : SnapshotId} (hv : (c.snapshot s).Verified) :
    (c.snapshot s).Sound where
  table := by
    intro name t ht
    obtain ⟨-, hname, hverified⟩ := hv.table name t ht
    rw [get?_tables_snapshot] at ht
    obtain ⟨id, -, rfl⟩ := Option.map_eq_some_iff.mp ht
    exact ⟨hname, hl.table_sound hverified⟩
  indexNames := hv.indexNames
  target := by
    intro name t ht f hf
    obtain ⟨-, -, hverified⟩ := hv.table name t ht
    have hkey := (hverified.foreignKey f hf).2
    have htarget := hv.target name t ht f hf
    rw [get?_tables_snapshot] at ht htarget
    obtain ⟨id, -, rfl⟩ := Option.map_eq_some_iff.mp ht
    obtain ⟨k, -, rfl⟩ := List.mem_map.mp hf
    rw [Option.map_map] at htarget
    obtain ⟨d, hfind, hsame⟩ := Option.map_eq_some_iff.mp htarget
    have hd : d = (c.foreignKey k).target := hsame
    refine ⟨c.table d, by rw [get?_tables_snapshot, hfind, Option.map_some], ?_⟩
    have hheld := hl.holds_of_mem_map (hl.foreignColumn k)
      fun x hx => (hkey.foreignOwner x hx).trans hd.symm
    exact ⟨hheld, Table.nodup_columnNames hkey.foreignNodup hheld⟩

end Catalog

/-- The columns of a reachable table go by the names they are held under. -/
theorem Table.Reachable.name_column {t : Table} (h : t.Reachable) {name : String} {x : Column}
    (hx : t.columns.get? name = some x) : x.name = name := by
  obtain ⟨c, hc, id, rfl⟩ := h
  rw [Catalog.get?_columns_table] at hx
  obtain ⟨x, hfind, rfl⟩ := Option.map_eq_some_iff.mp hx
  exact (hc.linked.column id name x hfind).2.2

theorem Table.Reachable.columnNames_values {t : Table} (h : t.Reachable) :
    columnNames t.columns.values = t.columns.keys :=
  OrderedMap.map_values_eq_keys fun _ _ hx => h.name_column hx

/-- Every verified snapshot that edits reach is sound. -/
theorem Snapshot.Reachable.sound {s : Snapshot} (h : s.Reachable) (hv : s.verify = .ok ()) :
    s.Sound := by
  obtain ⟨c, hc, id, -, rfl⟩ := h
  exact hc.linked.snapshot_sound (Snapshot.verify_eq_ok_iff.mp hv)

end SchemaSync
