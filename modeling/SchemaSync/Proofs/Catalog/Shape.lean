import SchemaSync.Proofs.Catalog.Integrity
import SchemaSync.Proofs.Diff.Database

/-!
# Shapes

The shape of a table is what is left of it when every part goes by names: columns, key slots, constraints
and indexes without handles. Edits are easier to follow on shapes than on catalogs, since a shape does not
know in which order parts were given out. What lets shapes be followed is that an edit which makes a part
keeps all others as they were (`Catalog.Keeps`), so it changes the shape of one table only, and that shape
by what was made: `Catalog.Keeps.shape_snapshot`.
-/

namespace SchemaSync

structure TableShape where
  columns : OrderedMap String ColumnForm
  slots : OrderedMap Int String
  uniques : List (List String)
  foreignKeys : List KeyForm
  /-- The columns of each index, and whether it is unique. -/
  indexes : OrderedMap String (List String × Bool)
  deriving DecidableEq

def TableShape.empty : TableShape := ⟨.empty, .empty, [], [], .empty⟩

def Table.shape (t : Table) : TableShape where
  columns := t.columns.map Column.form
  slots := t.slots.map Column.name
  uniques := t.uniques.map fun u => columnNames u.columns
  foreignKeys := t.foreignKeys.map ForeignKey.form
  indexes := t.indexes.map fun i => (columnNames i.columns, i.unique)

def Snapshot.shape (s : Snapshot) : OrderedMap String TableShape := s.tables.map Table.shape

namespace Catalog

variable {c d : Catalog} {s : SnapshotId} {t u : TableId} {name : String} {f : TableShape → TableShape}

def shapeOf (c : Catalog) (e : TableEntry) : TableShape where
  columns := (e.columns.map c.column).map Column.form
  slots := (e.slots.map c.column).map Column.name
  uniques := (e.uniques.map c.unique).map fun u => columnNames u.columns
  foreignKeys := (e.foreignKeys.map c.foreignKey).map ForeignKey.form
  indexes := (e.indexes.map c.index).map fun i => (columnNames i.columns, i.unique)

theorem shape_table (c : Catalog) (t : TableId) : (c.table t).shape = c.shapeOf (c.tables.get t) := rfl

/-! ### Look-ups -/

@[simp] theorem get?_columns_shapeOf (c : Catalog) (e : TableEntry) (n : String) :
    (c.shapeOf e).columns.get? n = (e.columns.get? n).map fun id => (c.column id).form := by
  rw [shapeOf, OrderedMap.get?_map, OrderedMap.get?_map, Option.map_map]
  rfl

@[simp] theorem get?_slots_shapeOf (c : Catalog) (e : TableEntry) (slot : Int) :
    (c.shapeOf e).slots.get? slot = (e.slots.get? slot).map fun id => (c.column id).name := by
  rw [shapeOf, OrderedMap.get?_map, OrderedMap.get?_map, Option.map_map]
  rfl

@[simp] theorem get?_indexes_shapeOf (c : Catalog) (e : TableEntry) (n : String) :
    (c.shapeOf e).indexes.get? n = (e.indexes.get? n).map fun i =>
      (columnNames (c.index i).columns, (c.index i).unique) := by
  rw [shapeOf, OrderedMap.get?_map, OrderedMap.get?_map, Option.map_map]
  rfl

theorem get?_shape_snapshot (c : Catalog) (s : SnapshotId) (name : String) :
    (c.snapshot s).shape.get? name = (c.findTable? s name).map fun t => (c.table t).shape := by
  rw [Snapshot.shape, OrderedMap.get?_map, get?_tables_snapshot, Option.map_map]
  rfl

/-! ## What is kept -/

/-- Every part of a catalog is in another one as it was, and every table goes by its old name. -/
structure Keeps (c d : Catalog) : Prop where
  tableName : ∀ t, c.tables.Issued t → d.tableName t = c.tableName t
  column : ∀ id, c.columns.Issued id → d.column id = c.column id
  index : ∀ i, c.indexes.Issued i → d.indexes.get i = c.indexes.get i
  unique : ∀ u, c.uniques.Issued u → d.uniques.get u = c.uniques.get u
  foreignKey : ∀ k, c.foreignKeys.Issued k → d.foreignKeys.get k = c.foreignKeys.get k

/-- A mutation that renames nothing keeps what there is. -/
theorem Mutation.keeps (h : Mutation c d)
    (hname : ∀ t, c.tables.Issued t → d.tableName t = c.tableName t)
    (hcolumn : ∀ id, c.columns.Issued id → d.columns.get id = c.columns.get id) : c.Keeps d where
  tableName := hname
  column := by
    intro id hid
    unfold Catalog.column
    rw [hcolumn id hid]
  index := fun _ hi => (h.get_index hi).2
  unique := fun _ hu => (h.get_unique hu).2
  foreignKey := fun _ hk => (h.get_foreignKey hk).2

/-- The table that a foreign key refers to has been made, since it has columns. -/
theorem WellFormed.issued_target (hc : c.WellFormed) {k : ForeignKeyId}
    (hk : k ∈ (c.tables.get t).foreignKeys) : c.tables.Issued (c.foreignKeys.get k).target := by
  obtain ⟨-, howned⟩ := hc.owned.foreignKey t k hk
  obtain ⟨id, hid⟩ := List.exists_mem_of_ne_nil _ howned.foreign_ne_nil
  obtain ⟨hissued, howner⟩ := howned.foreignColumns id hid
  exact issued_of_findColumn? (howner ▸ hc.linked.held id hissued)

namespace Keeps

theorem map_column (h : c.Keeps d) {ids : List ColumnId} (hids : ∀ id ∈ ids, c.columns.Issued id) :
    ids.map d.column = ids.map c.column :=
  List.map_congr_left fun id hid => h.column id (hids id hid)

/-- A table entry of a well-formed catalog has its old shape where its parts are kept. -/
theorem shapeOf (h : c.Keeps d) (hc : c.WellFormed) (t : TableId) :
    d.shapeOf (c.tables.get t) = c.shapeOf (c.tables.get t) := by
  have hcolumns : (c.tables.get t).columns.map d.column = (c.tables.get t).columns.map c.column :=
    OrderedMap.map_congr fun name id hid => h.column id (hc.linked.column t name id hid).1
  have hslots : (c.tables.get t).slots.map d.column = (c.tables.get t).slots.map c.column :=
    OrderedMap.map_congr fun slot id hid =>
      h.column id ((hc.owned.slots t).1 id (OrderedMap.mem_values_of_get? hid)).1
  have huniques : ((c.tables.get t).uniques.map d.unique).map (fun u => columnNames u.columns) =
      ((c.tables.get t).uniques.map c.unique).map fun u => columnNames u.columns := by
    rw [List.map_map, List.map_map]
    apply List.map_congr_left
    intro u hu
    show columnNames ((d.uniques.get u).columns.map d.column) =
      columnNames ((c.uniques.get u).columns.map c.column)
    rw [h.unique u (hc.owned.unique t u hu).1, h.map_column (hc.linked.unique u)]
  have hkeys : ((c.tables.get t).foreignKeys.map d.foreignKey).map ForeignKey.form =
      ((c.tables.get t).foreignKeys.map c.foreignKey).map ForeignKey.form := by
    rw [List.map_map, List.map_map]
    apply List.map_congr_left
    intro k hk
    have htarget := h.tableName _ (hc.issued_target hk)
    show (d.resolveForeignKey k (d.foreignKeys.get k)).form =
      (c.resolveForeignKey k (c.foreignKeys.get k)).form
    rw [h.foreignKey k (hc.owned.foreignKey t k hk).1]
    unfold resolveForeignKey ForeignKey.form
    rw [htarget, h.map_column (hc.linked.localColumn k), h.map_column (hc.linked.foreignColumn k)]
  have hindexes : ((c.tables.get t).indexes.map d.index).map
        (fun i => (columnNames i.columns, i.unique)) =
      ((c.tables.get t).indexes.map c.index).map fun i => (columnNames i.columns, i.unique) := by
    refine OrderedMap.eq_of_get? (by simp) fun name => ?_
    rw [OrderedMap.get?_map, OrderedMap.get?_map, OrderedMap.get?_map, OrderedMap.get?_map]
    cases hi : (c.tables.get t).indexes.get? name with
    | none => rfl
    | some i =>
        show some (columnNames ((d.indexes.get i).columns.map d.column), (d.indexes.get i).unique) =
          some (columnNames ((c.indexes.get i).columns.map c.column), (c.indexes.get i).unique)
        rw [h.index i (hc.owned.index t name i hi).1, h.map_column (hc.linked.index i)]
  unfold Catalog.shapeOf
  rw [hcolumns, hslots, huniques, hkeys, hindexes]

/-- Where one table of a snapshot is changed, the shape of the snapshot changes under its name. -/
theorem shape_snapshot (h : c.Keeps d) (hc : c.WellFormed) (hsnapshots : d.snapshots = c.snapshots)
    (hother : ∀ u, u ≠ t → d.tables.get u = c.tables.get u) (ht : c.findTable? s name = some t)
    (hself : d.shapeOf (d.tables.get t) = f (c.shapeOf (c.tables.get t))) :
    (d.snapshot s).shape = (c.snapshot s).shape.update name f := by
  have hfind : ∀ key, d.findTable? s key = c.findTable? s key := by
    intro key
    unfold findTable?
    rw [hsnapshots]
  refine OrderedMap.eq_of_get? ?_ fun key => ?_
  · rw [OrderedMap.keys_update, Snapshot.shape, Snapshot.shape, OrderedMap.keys_map,
      OrderedMap.keys_map, keys_snapshot, keys_snapshot, hsnapshots]
  · rw [OrderedMap.get?_update, get?_shape_snapshot, get?_shape_snapshot, hfind]
    by_cases hkey : name = key
    · subst hkey
      rw [if_pos rfl, ht, Option.map_some, Option.map_some, Option.map_some, shape_table, hself,
        shape_table]
    · rw [if_neg hkey]
      cases hu : c.findTable? s key with
      | none => rfl
      | some u =>
          -- Another name leads to another table, whose entry is as it was.
          have hne : u ≠ t := by
            rintro rfl
            exact hkey ((hc.linked.table s name u ht).2.2.symm.trans (hc.linked.table s key u hu).2.2)
          rw [Option.map_some, Option.map_some, shape_table, hother u hne, h.shapeOf hc u, shape_table]

end Keeps
end Catalog
end SchemaSync
