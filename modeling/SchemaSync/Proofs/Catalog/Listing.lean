import SchemaSync.Proofs.Catalog.Dangling
import SchemaSync.Proofs.Catalog.Shape

/-!
# Listings

The listing of a snapshot is what there is to see of it: every name, in every place where it occurs, and
every property of a part, but no identity. Tables, columns and indexes are listed with the keys that they
stand under.

Names can be given anew in a listing (`Relabelling`), each column name by the table that it belongs to: in
a foreign key the local columns belong to its own table and the foreign columns to its target. In a
catalog a part mentions others by identity, and a name is stored in two places at most. `Catalog.Renamed`
says what has to change there for the listing to be relabelled, and the main statement is
`Catalog.Renamed.listing_eq`.
-/

namespace SchemaSync

structure ColumnListing where
  name : String
  form : ColumnForm
  /-- Whether a unique constraint covers it alone. -/
  unique : Bool
  /-- Its primary key slot, or `0`. -/
  slot : Int
  deriving DecidableEq

structure IndexListing where
  table : String
  name : String
  columns : List String
  unique : Bool
  deriving DecidableEq

structure KeyListing where
  table : String
  form : KeyForm
  single : Bool
  deriving DecidableEq

/-- A table by names; the primary key is in the order of its slots. -/
structure TableListing where
  name : String
  columns : List (String × ColumnListing)
  primaryKey : List String
  uniques : List (List String)
  foreignKeys : List KeyListing
  indexes : List (String × IndexListing)
  deriving DecidableEq

def Index.listing (i : Index) : IndexListing := ⟨i.ownerName, i.name, columnNames i.columns, i.unique⟩

def ForeignKey.listing (f : ForeignKey) : KeyListing := ⟨f.ownerName, f.form, f.isSingleColumn⟩

namespace Catalog

def listColumn (c : Catalog) (x : Column) : ColumnListing :=
  ⟨x.name, x.form, c.isUnique x.id, c.primaryKeySlot x.id⟩

def listTable (c : Catalog) (t : Table) : TableListing where
  name := t.name
  columns := t.columns.entries.map fun e => (e.1, c.listColumn e.2)
  primaryKey := columnNames t.primaryKey
  uniques := t.uniques.map fun u => columnNames u.columns
  foreignKeys := t.foreignKeys.map ForeignKey.listing
  indexes := t.indexes.entries.map fun e => (e.1, e.2.listing)

def listing (c : Catalog) (s : SnapshotId) : List (String × TableListing) :=
  (c.snapshot s).tables.entries.map fun e => (e.1, c.listTable e.2)

end Catalog

/-! ## New names -/

/-- New names for tables, and for the columns of each table. A table is given by its former name. -/
structure Relabelling where
  table : String → String
  column : String → String → String

namespace Relabelling

variable (ρ : Relabelling)

def ofColumn (table old new : String) : Relabelling where
  table := fun u => u
  column := fun u x => if u = table then OrderedMap.renameKey old new x else x

def ofTable (old new : String) : Relabelling where
  table := OrderedMap.renameKey old new
  column := fun _ x => x

def same : Relabelling := ⟨fun u => u, fun _ x => x⟩

def onColumn (table : String) (x : ColumnListing) : ColumnListing :=
  { x with name := ρ.column table x.name }

def onIndex (i : IndexListing) : IndexListing :=
  { i with
    table := ρ.table i.table
    columns := i.columns.map (ρ.column i.table) }

def onKey (k : KeyListing) : KeyListing :=
  { k with
    table := ρ.table k.table
    form :=
      { k.form with
        target := ρ.table k.form.target
        localColumns := k.form.localColumns.map (ρ.column k.table)
        foreignColumns := k.form.foreignColumns.map (ρ.column k.form.target) } }

def onTable (t : TableListing) : TableListing where
  name := ρ.table t.name
  columns := t.columns.map fun e => (ρ.column t.name e.1, ρ.onColumn t.name e.2)
  primaryKey := t.primaryKey.map (ρ.column t.name)
  uniques := t.uniques.map (List.map (ρ.column t.name))
  foreignKeys := t.foreignKeys.map ρ.onKey
  indexes := t.indexes.map fun e => (e.1, ρ.onIndex e.2)

def onListing (ts : List (String × TableListing)) : List (String × TableListing) :=
  ts.map fun e => (ρ.table e.1, ρ.onTable e.2)

theorem onTable_same (t : TableListing) : same.onTable t = t := by
  have hnames : ∀ xs : List String, xs.map (same.column t.name) = xs := List.map_id
  have huniques : t.uniques.map (List.map (same.column t.name)) = t.uniques :=
    (List.map_congr_left fun xs _ => hnames xs).trans (List.map_id _)
  have hkeys : same.onKey = id := funext fun k => by simp [same, onKey]
  have hindexes : (fun e : String × IndexListing => (e.1, same.onIndex e.2)) = id :=
    funext fun e => by simp [same, onIndex]
  unfold onTable
  rw [hnames, huniques, hkeys, hindexes, List.map_id, List.map_id]
  exact congrArg (TableListing.mk t.name · t.primaryKey t.uniques t.foreignKeys t.indexes) (List.map_id _)

/-- Where every name stays, a listing stays. -/
theorem onListing_same (ts : List (String × TableListing)) : same.onListing ts = ts := by
  unfold onListing
  simp only [onTable_same]
  exact List.map_id ts

theorem ofColumn_self (table old : String) : ofColumn table old old = same := by
  unfold ofColumn same
  simp only [OrderedMap.renameKey_self, ite_self]

theorem ofTable_self (old : String) : ofTable old old = same := by
  unfold ofTable same
  simp only [funext (OrderedMap.renameKey_self old)]

end Relabelling

namespace Catalog

variable {c d : Catalog} {s : SnapshotId} {t : TableId} {ρ : Relabelling}

/-! ## What is listed of a column -/

theorem isUnique_eq (c : Catalog) (id : ColumnId) : c.isUnique id =
    (c.tables.get (c.columns.get id).owner).uniques.any fun u => (c.uniques.get u).columns == [id] := by
  have hcolumns : ∀ u, (c.unique u).columns.map Column.id = (c.uniques.get u).columns :=
    fun u => map_id_resolved _
  unfold isUnique Table.coversAlone table
  simp only [List.any_map, Function.comp_def, hcolumns]

theorem primaryKeySlot_eq (c : Catalog) (id : ColumnId) : c.primaryKeySlot id =
    (((c.tables.get (c.columns.get id).owner).slots.entries.find? fun e => e.2 == id).map
      Prod.fst).getD 0 := by
  unfold primaryKeySlot Table.slotOf table OrderedMap.map
  simp only [List.find?_map, Option.map_map, Function.comp_def]
  rfl

theorem primaryKey_table (c : Catalog) (t : TableId) :
    (c.table t).primaryKey = (c.tables.get t).slots.inOrder.map c.column :=
  OrderedMap.inOrder_map c.column _

/-! ## Renamed snapshots -/

/-- The snapshot `s` of a catalog `d` is that of `c` under new names: on each of its tables and on their
columns, and where these are held. -/
structure Renamed (ρ : Relabelling) (s : SnapshotId) (c d : Catalog) : Prop where
  tables : (d.snapshots.get s).tables.entries =
    (c.snapshots.get s).tables.entries.map fun e => (ρ.table e.1, e.2)
  tableName : ∀ t, c.HasTable s t → d.tableName t = ρ.table (c.tableName t)
  columns : ∀ t, c.HasTable s t → (d.tables.get t).columns.entries =
    (c.tables.get t).columns.entries.map fun e => (ρ.column (c.tableName t) e.1, e.2)
  column : ∀ t, c.HasTable s t → ∀ id, c.columns.Issued id → (c.columns.get id).owner = t →
    d.columns.get id =
      { c.columns.get id with name := ρ.column (c.tableName t) (c.columns.get id).name }
  slots : ∀ t, (d.tables.get t).slots = (c.tables.get t).slots
  uniques : ∀ t, (d.tables.get t).uniques = (c.tables.get t).uniques
  foreignKeys : ∀ t, (d.tables.get t).foreignKeys = (c.tables.get t).foreignKeys
  indexes : ∀ t, (d.tables.get t).indexes = (c.tables.get t).indexes
  uniqueStore : d.uniques = c.uniques
  foreignKeyStore : d.foreignKeys = c.foreignKeys
  indexStore : d.indexes = c.indexes

/-- A catalog is itself under the same names. -/
theorem Renamed.refl (s : SnapshotId) (c : Catalog) : Renamed .same s c c where
  tables := (List.map_id _).symm
  tableName := fun _ _ => rfl
  columns := fun _ _ => (List.map_id _).symm
  column := fun _ _ _ _ _ => rfl
  slots := fun _ => rfl
  uniques := fun _ => rfl
  foreignKeys := fun _ => rfl
  indexes := fun _ => rfl
  uniqueStore := rfl
  foreignKeyStore := rfl
  indexStore := rfl

namespace Renamed

variable (h : Renamed ρ s c d)
include h

theorem hasTable_iff : d.HasTable s t ↔ c.HasTable s t := by
  rw [hasTable_iff_mem_values, hasTable_iff_mem_values, OrderedMap.values, h.tables, List.map_map]
  rfl

theorem columnNames_map (ht : c.HasTable s t) {ids : List ColumnId} (hids : c.Owns t ids) :
    columnNames (ids.map d.column) =
      (columnNames (ids.map c.column)).map (ρ.column (c.tableName t)) := by
  unfold columnNames
  rw [List.map_map, List.map_map, List.map_map]
  apply List.map_congr_left
  intro id hid
  obtain ⟨hissued, howner⟩ := hids id hid
  exact congrArg ColumnEntry.name (h.column t ht id hissued howner)

/-- A column is listed under its new name, and otherwise as before: whether it is unique and its slot are
read off identities. -/
theorem listColumn_eq (ht : c.HasTable s t) {id : ColumnId} (hid : c.columns.Issued id)
    (howner : (c.columns.get id).owner = t) :
    d.listColumn (d.column id) = ρ.onColumn (c.tableName t) (c.listColumn (c.column id)) := by
  have hentry := h.column t ht id hid howner
  have hunique : d.isUnique id = c.isUnique id := by
    rw [isUnique_eq, isUnique_eq, hentry, h.uniqueStore, h.uniques]
  have hslot : d.primaryKeySlot id = c.primaryKeySlot id := by
    rw [primaryKeySlot_eq, primaryKeySlot_eq, hentry, h.slots]
  show (⟨(d.column id).name, (d.column id).form, d.isUnique id, d.primaryKeySlot id⟩ : ColumnListing) = _
  rw [hunique, hslot]
  unfold Catalog.column
  rw [hentry]
  rfl

theorem listing_index (ht : c.HasTable s t) {i : IndexId} {name : String}
    (hi : (c.indexes.get i).Owned c t name) :
    (d.index i).listing = ρ.onIndex (c.index i).listing := by
  have hnames := h.columnNames_map ht hi.columns
  have howner := h.tableName t ht
  unfold Catalog.index
  rw [h.indexStore]
  show (⟨d.tableName (c.indexes.get i).owner, _, columnNames ((c.indexes.get i).columns.map d.column), _⟩ :
    IndexListing) = _
  rw [hi.owner, howner, hnames, ← hi.owner]
  rfl

/-- The foreign columns of a key get the new names of its target, which the snapshot has to hold. -/
theorem listing_foreignKey (ht : c.HasTable s t) {k : ForeignKeyId}
    (hk : (c.foreignKeys.get k).Owned c t) (htarget : c.HasTable s (c.foreignKeys.get k).target) :
    (d.foreignKey k).listing = ρ.onKey (c.foreignKey k).listing := by
  have hlocal := h.columnNames_map ht hk.localColumns
  have hforeign := h.columnNames_map htarget hk.foreignColumns
  have howner := h.tableName t ht
  have hcalled := h.tableName _ htarget
  have hsingle : (d.foreignKey k).isSingleColumn = (c.foreignKey k).isSingleColumn := by
    unfold Catalog.foreignKey
    rw [h.foreignKeyStore]
    unfold ForeignKey.isSingleColumn ForeignKey.singleColumn? resolveForeignKey
    rcases (c.foreignKeys.get k).localColumns with _ | ⟨x, _ | ⟨y, ys⟩⟩ <;> rfl
  unfold ForeignKey.listing
  rw [hsingle]
  unfold Catalog.foreignKey
  rw [h.foreignKeyStore]
  show (⟨d.tableName (c.foreignKeys.get k).owner, ⟨columnNames ((c.foreignKeys.get k).localColumns.map
      d.column), columnNames ((c.foreignKeys.get k).foreignColumns.map d.column),
      d.tableName (c.foreignKeys.get k).target, _, _⟩, _⟩ : KeyListing) = _
  rw [hk.owner, howner, hlocal, hforeign, hcalled, ← hk.owner]
  rfl

theorem listTable_eq (hl : c.Linked) (ho : c.Owned) (hs : c.RefersWithin s) (ht : c.HasTable s t) :
    d.listTable (d.table t) = ρ.onTable (c.listTable (c.table t)) := by
  have hcolumns : (d.table t).columns.entries.map (fun e => (e.1, d.listColumn e.2)) =
      ((c.table t).columns.entries.map fun e => (e.1, c.listColumn e.2)).map fun e =>
        (ρ.column (c.tableName t) e.1, ρ.onColumn (c.tableName t) e.2) := by
    show (((d.tables.get t).columns.entries.map fun e => (e.1, d.column e.2)).map fun e =>
        (e.1, d.listColumn e.2)) =
      (((c.tables.get t).columns.entries.map fun e => (e.1, c.column e.2)).map fun e =>
        (e.1, c.listColumn e.2)).map _
    rw [h.columns t ht, List.map_map, List.map_map, List.map_map, List.map_map]
    apply List.map_congr_left
    rintro ⟨name, id⟩ he
    obtain ⟨hid, howner, -⟩ := hl.column t name id (OrderedMap.mem_entries_iff_get?.mp he)
    exact Prod.ext rfl (h.listColumn_eq ht hid howner)
  have hkey : columnNames (d.table t).primaryKey =
      (columnNames (c.table t).primaryKey).map (ρ.column (c.tableName t)) := by
    rw [primaryKey_table, primaryKey_table, h.slots]
    refine h.columnNames_map ht fun id hid => (ho.slots t).1 id ?_
    exact OrderedMap.mem_inOrder_iff.mp hid
  have huniques : (d.table t).uniques.map (fun u => columnNames u.columns) =
      ((c.table t).uniques.map fun u => columnNames u.columns).map
        (List.map (ρ.column (c.tableName t))) := by
    show ((d.tables.get t).uniques.map d.unique).map (fun u => columnNames u.columns) =
      (((c.tables.get t).uniques.map c.unique).map fun u => columnNames u.columns).map _
    rw [h.uniques, List.map_map, List.map_map, List.map_map]
    apply List.map_congr_left
    intro u hu
    show columnNames ((d.uniques.get u).columns.map d.column) =
      (columnNames ((c.uniques.get u).columns.map c.column)).map (ρ.column (c.tableName t))
    rw [h.uniqueStore]
    exact h.columnNames_map ht (ho.unique t u hu).2.columns
  have hkeys : (d.table t).foreignKeys.map ForeignKey.listing =
      ((c.table t).foreignKeys.map ForeignKey.listing).map ρ.onKey := by
    show ((d.tables.get t).foreignKeys.map d.foreignKey).map ForeignKey.listing =
      (((c.tables.get t).foreignKeys.map c.foreignKey).map ForeignKey.listing).map ρ.onKey
    rw [h.foreignKeys, List.map_map, List.map_map, List.map_map]
    apply List.map_congr_left
    intro k hk
    exact h.listing_foreignKey ht (ho.foreignKey t k hk).2 (hs t ht k hk)
  have hindexes : (d.table t).indexes.entries.map (fun e => (e.1, e.2.listing)) =
      ((c.table t).indexes.entries.map fun e => (e.1, e.2.listing)).map fun e =>
        (e.1, ρ.onIndex e.2) := by
    show (((d.tables.get t).indexes.entries.map fun e => (e.1, d.index e.2)).map fun e =>
        (e.1, e.2.listing)) =
      (((c.tables.get t).indexes.entries.map fun e => (e.1, c.index e.2)).map fun e =>
        (e.1, e.2.listing)).map _
    rw [h.indexes, List.map_map, List.map_map, List.map_map]
    apply List.map_congr_left
    rintro ⟨name, i⟩ he
    have howned := (ho.index t name i (OrderedMap.mem_entries_iff_get?.mp he)).2
    exact Prod.ext rfl (h.listing_index ht howned)
  unfold Catalog.listTable
  rw [hcolumns, hkey, huniques, hkeys, hindexes]
  show (⟨d.tableName t, _, _, _, _, _⟩ : TableListing) = _
  rw [h.tableName t ht]
  rfl

/-- **Renamed listings**: a self-contained snapshot under new names is listed as before with every name
replaced. -/
theorem listing_eq (hl : c.Linked) (ho : c.Owned) (hs : c.RefersWithin s) :
    d.listing s = ρ.onListing (c.listing s) := by
  show (((d.snapshots.get s).tables.entries.map fun e => (e.1, d.table e.2)).map fun e =>
      (e.1, d.listTable e.2)) =
    (((c.snapshots.get s).tables.entries.map fun e => (e.1, c.table e.2)).map fun e =>
      (e.1, c.listTable e.2)).map _
  rw [h.tables, List.map_map, List.map_map, List.map_map, List.map_map]
  apply List.map_congr_left
  rintro ⟨name, t⟩ he
  have ht : c.HasTable s t := ⟨name, OrderedMap.mem_entries_iff_get?.mp he⟩
  exact Prod.ext rfl (h.listTable_eq hl ho hs ht)

/-- Names do not count for which tables refer to which. -/
theorem refersWithin_iff : d.RefersWithin s ↔ c.RefersWithin s := by
  unfold RefersWithin
  simp only [h.hasTable_iff, h.foreignKeys, h.foreignKeyStore]

end Renamed
end Catalog
end SchemaSync
