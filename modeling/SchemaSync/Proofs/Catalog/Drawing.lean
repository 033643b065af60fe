import SchemaSync.Proofs.Catalog.Shape

/-!
# Edits that draw a shape

A catalog draws a shape if one of its snapshots has this shape and only primary keys may break a rule. For
each edit that makes a part there is a condition on the shape under which the edit succeeds, and the shape
that it leaves: `Catalog.Draws.createTable` and its like. Whoever puts a snapshot together by such edits can
follow the shape and never needs to look at the catalog.
-/

namespace SchemaSync

/-- The form of a column that is made of a type. The default `NULL` counts as none. -/
def ColumnSpec.form (spec : ColumnSpec) (type : ColumnType) : ColumnForm where
  type
  notNull := spec.notNull
  default := if spec.default = some "NULL" then none else spec.default
  autoIncrement := spec.autoIncrement

namespace TableShape

def addColumn (name : String) (form : ColumnForm) (sh : TableShape) : TableShape :=
  { sh with columns := sh.columns.insert name form }

def fillSlot (slot : Int) (name : String) (sh : TableShape) : TableShape :=
  { sh with slots := sh.slots.insert slot name }

def addUnique (columns : List String) (sh : TableShape) : TableShape :=
  { sh with uniques := sh.uniques ++ [columns] }

def addIndex (name : String) (columns : List String) (unique : Bool) (sh : TableShape) : TableShape :=
  { sh with indexes := sh.indexes.insert name (columns, unique) }

def addForeignKey (key : KeyForm) (sh : TableShape) : TableShape :=
  { sh with foreignKeys := sh.foreignKeys ++ [key] }

end TableShape

def HasColumns (m : OrderedMap String TableShape) (table : String) (columns : List String) : Prop :=
  ∃ sh, m.get? table = some sh ∧ ∀ x ∈ columns, sh.columns.contains x = true

theorem HasColumns.update {m : OrderedMap String TableShape} {table : String} {columns : List String}
    (h : HasColumns m table columns) {change : TableShape → TableShape}
    (hchange : ∀ sh, (change sh).columns = sh.columns) (name : String) :
    HasColumns (m.update name change) table columns := by
  obtain ⟨sh, hsh, hcolumns⟩ := h
  by_cases hname : name = table
  · refine ⟨change sh, by rw [OrderedMap.get?_update, if_pos hname, hsh, Option.map_some], ?_⟩
    rw [hchange]
    exact hcolumns
  · exact ⟨sh, by rw [OrderedMap.get?_update, if_neg hname, hsh], hcolumns⟩

/-- A foreign key of a table leads from columns of the table to as many columns of another one. -/
structure KeyForm.Fits (key : KeyForm) (m : OrderedMap String TableShape) (table : String) : Prop where
  localColumns : HasColumns m table key.localColumns
  foreignColumns : HasColumns m key.target key.foreignColumns
  target_ne : key.target ≠ table
  foreign_ne_nil : key.foreignColumns ≠ []
  length_eq : key.foreignColumns.length = key.localColumns.length
  localNodup : key.localColumns.Nodup
  foreignNodup : key.foreignColumns.Nodup

/-- Only columns count for whether a foreign key can be made. -/
theorem KeyForm.Fits.update {key : KeyForm} {m : OrderedMap String TableShape} {table : String}
    (h : key.Fits m table) {change : TableShape → TableShape}
    (hchange : ∀ sh, (change sh).columns = sh.columns) (name : String) :
    key.Fits (m.update name change) table :=
  { h with
    localColumns := h.localColumns.update hchange name
    foreignColumns := h.foreignColumns.update hchange name }

def KeyForm.spec (key : KeyForm) (target : TableRef) : ForeignKeySpec where
  target
  localColumns := key.localColumns.map .named
  foreignColumns := key.foreignColumns.map .named
  onUpdate := key.onUpdate.keyword
  onDelete := key.onDelete.keyword

section
variable {m n : OrderedMap String TableShape} {name : String}

/-! ### Tables that differ in foreign keys only -/

/-- The tables of a name have the same columns and primary keys in two shapes, or there is none in both. -/
def SameColumnsAt (m n : OrderedMap String TableShape) (name : String) : Prop :=
  (m.get? name).map (fun sh => (sh.columns, sh.slots)) = (n.get? name).map fun sh => (sh.columns, sh.slots)

/-- The tables of two shapes have the same columns and primary keys. -/
def SameColumns (m n : OrderedMap String TableShape) : Prop :=
  ∀ name, (m.get? name).map (fun sh => (sh.columns, sh.slots)) =
    (n.get? name).map fun sh => (sh.columns, sh.slots)

theorem SameColumns.symm (h : SameColumns m n) : SameColumns n m := fun name => (h name).symm

theorem SameColumns.table (h : SameColumns m n) (name : String) : SameColumnsAt m n name := h name

theorem SameColumnsAt.get?_eq_none (h : SameColumnsAt m n name) (hname : m.get? name = none) :
    n.get? name = none := by
  unfold SameColumnsAt at h
  rw [hname, Option.map_none, eq_comm] at h
  exact Option.map_eq_none_iff.mp h

theorem SameColumnsAt.get? (h : SameColumnsAt m n name) {sh : TableShape} (hname : m.get? name = some sh) :
    ∃ other, n.get? name = some other ∧ other.columns = sh.columns ∧ other.slots = sh.slots := by
  unfold SameColumnsAt at h
  rw [hname, Option.map_some, eq_comm, Option.map_eq_some_iff] at h
  obtain ⟨other, hother, heq⟩ := h
  exact ⟨other, hother, (Prod.mk.inj heq).1, (Prod.mk.inj heq).2⟩

theorem SameColumnsAt.hasColumns (h : SameColumnsAt m n name) {columns : List String}
    (hcolumns : HasColumns m name columns) : HasColumns n name columns := by
  obtain ⟨sh, hsh, hcontains⟩ := hcolumns
  obtain ⟨other, hother, hsame, -⟩ := h.get? hsh
  exact ⟨other, hother, hsame ▸ hcontains⟩

/-- Whether a foreign key fits is a matter of the columns of its two tables. -/
theorem SameColumnsAt.fits {key : KeyForm} (hname : SameColumnsAt m n name) (htarget : SameColumnsAt m n key.target)
    (hfits : key.Fits m name) : key.Fits n name :=
  { hfits with
    localColumns := hname.hasColumns hfits.localColumns
    foreignColumns := htarget.hasColumns hfits.foreignColumns }

namespace TableShape

def addForeignKeys (keys : List KeyForm) (sh : TableShape) : TableShape :=
  { sh with foreignKeys := sh.foreignKeys ++ keys }

theorem addForeignKeys_nil : addForeignKeys [] = fun sh => sh := by
  funext sh
  exact congrArg (fun keys => { sh with foreignKeys := keys }) (List.append_nil _)

theorem addForeignKeys_addForeignKeys (first second : List KeyForm) (sh : TableShape) :
    (sh.addForeignKeys first).addForeignKeys second = sh.addForeignKeys (first ++ second) := by
  unfold addForeignKeys
  rw [List.append_assoc]

theorem foldl_addForeignKeys {γ : Type} (keys : γ → List KeyForm) (gs : List γ) (sh : TableShape) :
    gs.foldl (fun sh g => sh.addForeignKeys (keys g)) sh = sh.addForeignKeys (gs.flatMap keys) := by
  induction gs generalizing sh with
  | nil => exact (congrFun addForeignKeys_nil sh).symm
  | cons g gs ih => rw [List.foldl_cons, ih, addForeignKeys_addForeignKeys, List.flatMap_cons]

end TableShape

theorem sameColumns_update (m : OrderedMap String TableShape) (name : String) (keys : List KeyForm) :
    SameColumns m (m.update name (.addForeignKeys keys)) := by
  intro key
  rw [OrderedMap.get?_update]
  split
  · rw [Option.map_map]
    rfl
  · rfl

end

namespace Catalog

variable {c d : Catalog} {s : SnapshotId} {t : TableId} {name : String} {sh : TableShape}
  {m : OrderedMap String TableShape}

/-- A well-formed catalog whose snapshot `s` has the shape `m`. -/
structure Draws (c : Catalog) (s : SnapshotId) (m : OrderedMap String TableShape) : Prop where
  wellFormed : c.WellFormed
  issued : c.snapshots.Issued s
  shape : (c.snapshot s).shape = m

/-- A new snapshot in an empty catalog draws no table. -/
theorem draws_addSnapshot : (Catalog.addSnapshot .empty).Draws ⟨0⟩ .empty where
  wellFormed := AimedMutation.wellFormed (PlainMutation.aimed ⟨.snapshot, rfl⟩) wellFormed_empty
  issued := Store.issued_next_add _ _
  shape := rfl

namespace Draws

theorem find (h : c.Draws s m) (hname : m.get? name = some sh) :
    ∃ t, c.findTable? s name = some t ∧ c.shapeOf (c.tables.get t) = sh := by
  rw [← h.shape, get?_shape_snapshot] at hname
  exact Option.map_eq_some_iff.mp hname

theorem shapeOf_eq (h : c.Draws s m) (ht : c.findTable? s name = some t) (hname : m.get? name = some sh) :
    c.shapeOf (c.tables.get t) = sh := by
  rw [← h.shape, get?_shape_snapshot, ht, Option.map_some] at hname
  exact Option.some.inj hname

theorem findTable?_eq_none (h : c.Draws s m) (hname : m.get? name = none) :
    c.findTable? s name = none := by
  rw [← h.shape, get?_shape_snapshot] at hname
  exact Option.map_eq_none_iff.mp hname

theorem findColumn?_eq_none (h : c.Draws s m) (ht : c.findTable? s name = some t)
    (hname : m.get? name = some sh) {column : String} (hfree : sh.columns.get? column = none) :
    c.findColumn? t column = none := by
  rw [← h.shapeOf_eq ht hname, get?_columns_shapeOf] at hfree
  exact Option.map_eq_none_iff.mp hfree

/-- Only a gap in a primary key can keep a drawn snapshot from being verified. -/
theorem verify_eq_ok_iff (h : c.Draws s m) : (c.snapshot s).verify = .ok () ↔
    ∀ name sh, m.get? name = some sh → ∃ n, sh.slots.keys.Perm (Table.slotsUpTo n) := by
  rw [(h.wellFormed.snapshot_intact s).verify_eq_ok_iff, ← h.shape]
  simp only [Table.slotsFilled_iff, Snapshot.shape, OrderedMap.get?_map, Option.map_eq_some_iff]
  constructor
  · rintro hfilled name _ ⟨t, ht, rfl⟩
    rw [Table.shape, OrderedMap.keys_map]
    exact hfilled name t ht
  · intro hfilled name t ht
    have hslots := hfilled name t.shape ⟨t, ht, rfl⟩
    rwa [Table.shape, OrderedMap.keys_map] at hslots

/-- An edit that makes a part of one table keeps it in its place, and changes the shape under its name. -/
theorem change {f : TableShape → TableShape} {g : TableEntry → TableEntry} (h : c.Draws s m)
    (ht : c.findTable? s name = some t) (hstep : AimedMutation c d)
    (hsnapshots : d.snapshots = c.snapshots) (htables : d.tables = c.tables.update t g)
    (hcalled : ∀ e, (g e).name = e.name)
    (hcolumn : ∀ id, c.columns.Issued id → d.columns.get id = c.columns.get id)
    (hshape : d.shapeOf (g (c.tables.get t)) = f (d.shapeOf (c.tables.get t))) :
    d.findTable? s name = some t ∧ d.Draws s (m.update name f) := by
  have hkeep : c.Keeps d := by
    refine hstep.1.keeps (fun u _ => ?_) hcolumn
    unfold tableName
    rw [htables]
    exact c.tables.field_update t TableEntry.name hcalled u
  have hother : ∀ u, u ≠ t → d.tables.get u = c.tables.get u := by
    intro u hu
    rw [htables, Store.get_update_of_ne _ hu]
  have hself : d.shapeOf (d.tables.get t) = f (c.shapeOf (c.tables.get t)) := by
    rw [htables, Store.get_update_self _ (h.wellFormed.linked.table s name t ht).1, hshape,
      hkeep.shapeOf h.wellFormed]
  refine ⟨?_, hstep.wellFormed h.wellFormed, ?_, ?_⟩
  · unfold findTable?
    rw [hsnapshots]
    exact ht
  · rw [hsnapshots]
    exact h.issued
  · rw [hkeep.shape_snapshot h.wellFormed hsnapshots hother ht hself, h.shape]

end Draws

theorem findColumn?_of_contains {column : String}
    (h : (c.shapeOf (c.tables.get t)).columns.contains column = true) :
    ∃ id, c.findColumn? t column = some id := by
  obtain ⟨form, hform⟩ := OrderedMap.contains_iff.mp h
  rw [get?_columns_shapeOf] at hform
  obtain ⟨id, hid, -⟩ := Option.map_eq_some_iff.mp hform
  exact ⟨id, hid⟩

theorem Owns.resolved {ids : List ColumnId} (h : c.Owns t ids) :
    ∀ x ∈ ids.map c.column, x.owner = t := by
  intro x hx
  obtain ⟨id, hid, rfl⟩ := List.mem_map.mp hx
  exact (h id hid).2

/-- Columns of different names are different. -/
theorem nodup_of_columnNames {ids : List ColumnId} (h : (columnNames (ids.map c.column)).Nodup) :
    ids.Nodup := by
  unfold columnNames at h
  rw [List.map_map] at h
  exact h.of_map

/-- A foreign key over different columns to as many different ones of another table keeps its rules. -/
theorem verify_resolveForeignKey {k : ForeignKeyId} {e : ForeignKeyEntry} (hne : e.target ≠ e.owner)
    (hlocal : c.Owns e.owner e.localColumns) (hforeign : c.Owns e.target e.foreignColumns)
    (hsome : columnNames (e.foreignColumns.map c.column) ≠ [])
    (hlength : (columnNames (e.foreignColumns.map c.column)).length =
      (columnNames (e.localColumns.map c.column)).length)
    (hlocalNodup : (columnNames (e.localColumns.map c.column)).Nodup)
    (hforeignNodup : (columnNames (e.foreignColumns.map c.column)).Nodup) :
    (c.resolveForeignKey k e).verify = .ok () := by
  rw [ForeignKey.verify, firstOf_eq_ok_iff, ForeignKey.violations_eq_nil_iff]
  refine ⟨hne, fun hnil => ?_, ?_, hlocal.resolved, hforeign.resolved,
    (map_id_resolved e.localColumns).symm ▸ nodup_of_columnNames hlocalNodup,
    (map_id_resolved e.foreignColumns).symm ▸ nodup_of_columnNames hforeignNodup⟩
  · have hids : e.foreignColumns.map c.column = [] := hnil
    rw [hids] at hsome
    exact hsome rfl
  · have hcount : ∀ xs : List Column, (columnNames xs).length = xs.length := fun xs => List.length_map _
    rw [hcount, hcount] at hlength
    exact hlength

/-- What a foreign key that was made says. -/
theorem form_addForeignKey (e : ForeignKeyEntry) :
    ((c.addForeignKey e).foreignKey c.foreignKeys.next).form =
      ⟨columnNames (e.localColumns.map c.column), columnNames (e.foreignColumns.map c.column),
        c.tableName e.target, e.onUpdate, e.onDelete⟩ := by
  have htarget : (c.addForeignKey e).tableName e.target = c.tableName e.target :=
    c.tables.field_update e.owner TableEntry.name (by intro x; rfl) e.target
  unfold Catalog.foreignKey
  rw [get_addForeignKey_next, ← htarget]
  rfl

end Catalog

namespace Edit

open Catalog

variable {c : Catalog} {s : SnapshotId} {t u : TableId} {name : String} {sh : TableShape}
  {m : OrderedMap String TableShape}

/-- Columns that a table has are found by their names. -/
theorem outcome_resolveColumns (hl : c.Linked) :
    ∀ {names : List String},
      (∀ n ∈ names, (c.shapeOf (c.tables.get t)).columns.contains n = true) →
        ∃ ids, outcome (resolveColumns t (names.map .named)) c = (.ok ids, c) ∧ c.Owns t ids ∧
          columnNames (ids.map c.column) = names
  | [], _ => ⟨[], rfl, by rintro id ⟨⟩, rfl⟩
  | n :: names, h => by
    obtain ⟨id, hid⟩ := findColumn?_of_contains (h n List.mem_cons_self)
    obtain ⟨-, hrest⟩ := List.forall_mem_cons.mp h
    obtain ⟨ids, hids, howns, hnames⟩ := outcome_resolveColumns hl hrest
    obtain ⟨hissued, howner, hname⟩ := hl.column t n id hid
    refine ⟨id :: ids, ?_, List.forall_mem_cons.mpr ⟨⟨hissued, howner⟩, howns⟩, ?_⟩
    · simp [resolveColumns, resolveColumn, getColumn, outcome_bind, hid, hids, -bind_pure_comp]
    · show (c.columns.get id).name :: columnNames (ids.map c.column) = n :: names
      rw [hname, hnames]

end Edit

namespace Catalog.Draws

open Edit

variable {c : Catalog} {s : SnapshotId} {t : TableId} {name : String} {sh : TableShape}
  {m : OrderedMap String TableShape}

/-- A table is made under a free name. -/
theorem createTable (h : c.Draws s m) (hfree : m.get? name = none) :
    ∃ t d, outcome (Edit.createTable s name) c = (.ok t, d) ∧ d.findTable? s name = some t ∧
      d.Draws s (m.insert name .empty) := by
  have hnone := h.findTable?_eq_none hfree
  have hstep : PlainMutation c (c.addTable s name) := ⟨.table h.issued hnone, rfl⟩
  have hget : ∀ t, (c.addTable s name).tables.get t =
      if t = c.tables.next then ⟨s, name, .empty, .empty, [], [], .empty⟩ else c.tables.get t :=
    fun t => Store.get_add c.tables _ t
  have hkeep : c.Keeps (c.addTable s name) := by
    refine hstep.1.keeps (fun t ht => ?_) fun _ _ => rfl
    unfold tableName
    rw [hget, if_neg ht.ne_next]
  have hself : (c.addTable s name).findTable? s name = some c.tables.next :=
    (findTable?_addTable_eq_some_iff h.issued).mpr (Or.inl ⟨rfl, rfl, rfl⟩)
  have hother : ∀ key, name ≠ key →
      (c.addTable s name).findTable? s key = c.findTable? s key := by
    intro key hkey
    ext u
    rw [findTable?_addTable_eq_some_iff h.issued]
    simp [Ne.symm hkey]
  refine ⟨c.tables.next, c.addTable s name, ?_, hself, hstep.aimed.wellFormed h.wellFormed, ?_, ?_⟩
  · simp [Edit.createTable, outcome_bind, hnone]
    rfl
  · show (c.snapshots.update s _).Issued s
    rw [Store.issued_update]
    exact h.issued
  · have htables : ((c.addTable s name).snapshots.get s).tables =
        (c.snapshots.get s).tables.insert name c.tables.next :=
      congrArg SnapshotEntry.tables (Store.get_update_self _ h.issued)
    refine OrderedMap.eq_of_get? ?_ fun key => ?_
    · rw [Snapshot.shape, OrderedMap.keys_map, keys_snapshot, htables, OrderedMap.keys_insert,
        OrderedMap.keys_insert, ← h.shape, Snapshot.shape, OrderedMap.keys_map, keys_snapshot]
    · rw [get?_shape_snapshot, OrderedMap.get?_insert]
      by_cases hkey : name = key
      · subst hkey
        rw [if_pos rfl, hself, Option.map_some, shape_table, hget, if_pos rfl]
        rfl
      · rw [if_neg hkey, hother key hkey, ← h.shape, get?_shape_snapshot]
        cases hu : c.findTable? s key with
        | none => rfl
        | some u =>
            have hissued := (h.wellFormed.linked.table s key u hu).1
            rw [Option.map_some, Option.map_some, shape_table, hget, if_neg hissued.ne_next,
              hkeep.shapeOf h.wellFormed, shape_table]

/-- The entry of a new column is drawn as the form of the column. -/
theorem addColumn (h : c.Draws s m) (ht : c.findTable? s name = some t) (hname : m.get? name = some sh)
    (spec : ColumnSpec) (type : ColumnType) (hfree : sh.columns.get? spec.name = none) :
    (c.addColumn (spec.entry t type)).findTable? s name = some t ∧
      (c.addColumn (spec.entry t type)).Draws s (m.update name (.addColumn spec.name (spec.form type))) := by
  obtain ⟨htissued, -, -⟩ := h.wellFormed.linked.table s name t ht
  have hnone := h.findColumn?_eq_none ht hname hfree
  have hstep : PlainMutation c (c.addColumn (spec.entry t type)) :=
    ⟨.column (spec.entry t type) htissued hnone (spec.default_entry_ne t type), rfl⟩
  refine h.change ht hstep.aimed rfl rfl (fun _ => rfl) (fun id hid => (hid.get_add _).2) ?_
  have hform : ((c.addColumn (spec.entry t type)).column c.columns.next).form = spec.form type := by
    unfold Catalog.column
    rw [get_addColumn_next]
    rfl
  rw [← hform]
  unfold shapeOf TableShape.addColumn
  rw [OrderedMap.map_insert, OrderedMap.map_insert]
  rfl

/-- A column that is not to be unique is made under a free name. -/
theorem createColumn (h : c.Draws s m) (ht : c.findTable? s name = some t) (hname : m.get? name = some sh)
    (spec : ColumnSpec) {type : ColumnType} (hfree : sh.columns.get? spec.name = none)
    (htype : ColumnType.ofKeyword? spec.type = some type) (hunique : spec.unique = false) :
    ∃ id d, outcome (Edit.createColumn t spec) c = (.ok id, d) ∧ d.findTable? s name = some t ∧
      d.Draws s (m.update name (.addColumn spec.name (spec.form type))) := by
  have hnone := h.findColumn?_eq_none ht hname hfree
  refine ⟨c.columns.next, c.addColumn (spec.entry t type), ?_, h.addColumn ht hname spec type hfree⟩
  simp [Edit.createColumn, outcome_bind, hnone, Edit.columnType, htype, hunique]
  rfl

/-- A primary key slot is filled with a column that fills none. -/
theorem setPrimaryKeyColumn (h : c.Draws s m) (ht : c.findTable? s name = some t)
    (hname : m.get? name = some sh) (column : String) (slot : Int) (hpos : 1 ≤ slot)
    (hcolumn : sh.columns.contains column = true) (hfree : sh.slots.get? slot = none)
    (hnew : column ∉ sh.slots.values) :
    ∃ d, outcome (Edit.setPrimaryKeyColumn t (.named column) slot) c = (.ok (), d) ∧
      d.findTable? s name = some t ∧ d.Draws s (m.update name (.fillSlot slot column)) := by
  obtain ⟨htissued, -, -⟩ := h.wellFormed.linked.table s name t ht
  have hshape := h.shapeOf_eq ht hname
  subst hshape
  obtain ⟨id, hid⟩ := findColumn?_of_contains hcolumn
  obtain ⟨hissued, howner, hcalled⟩ := h.wellFormed.linked.column t column id hid
  have hslot : (c.tables.get t).slots.contains slot = false := by
    rw [get?_slots_shapeOf] at hfree
    exact OrderedMap.contains_eq_false_iff.mpr (Option.map_eq_none_iff.mp hfree)
  have hfresh : id ∉ (c.tables.get t).slots.values := by
    intro hmem
    apply hnew
    show column ∈ (((c.tables.get t).slots.map c.column).map Column.name).values
    rw [OrderedMap.values_map, OrderedMap.values_map, List.map_map, List.mem_map]
    exact ⟨id, hmem, hcalled⟩
  have hstep : PlainMutation c (c.fillSlot t slot id) :=
    ⟨.slot htissued hissued hpos hslot howner hfresh, rfl⟩
  refine ⟨c.fillSlot t slot id, ?_, ?_⟩
  · have hlt : ¬ slot < 1 := by omega
    simp [Edit.setPrimaryKeyColumn, resolveColumn, getColumn, outcome_bind, hid, hlt, hslot, howner,
      hfresh]
    rfl
  · refine h.change ht hstep.aimed rfl rfl (fun _ => rfl) (fun _ _ => rfl) ?_
    have hcalled' : ((c.fillSlot t slot id).column id).name = column := hcalled
    unfold shapeOf TableShape.fillSlot
    rw [OrderedMap.map_insert, OrderedMap.map_insert, hcalled']

/-- A unique constraint is made over columns in an order in which there is none yet. -/
theorem createUnique (h : c.Draws s m) (ht : c.findTable? s name = some t)
    (hname : m.get? name = some sh) {columns : List String}
    (hcolumns : ∀ x ∈ columns, sh.columns.contains x = true) (hnodup : columns.Nodup)
    (hnew : columns ∉ sh.uniques) :
    ∃ u d, outcome (Edit.createUnique t (columns.map .named)) c = (.ok u, d) ∧
      d.findTable? s name = some t ∧ d.Draws s (m.update name (.addUnique columns)) := by
  obtain ⟨htissued, -, -⟩ := h.wellFormed.linked.table s name t ht
  have hshape := h.shapeOf_eq ht hname
  subst hshape
  obtain ⟨ids, hids, howns, hnames⟩ := outcome_resolveColumns h.wellFormed.linked hcolumns
  have hidsNodup : ids.Nodup := nodup_of_columnNames (hnames.symm ▸ hnodup)
  have hok : (c.resolveUnique c.uniques.next ⟨t, ids⟩).verify = .ok () := by
    rw [Unique.verify, firstOf_eq_ok_iff, Unique.violations_eq_nil_iff]
    exact ⟨howns.resolved, (map_id_resolved ids).symm ▸ hidsNodup⟩
  have hother : ∀ u ∈ (c.tables.get t).uniques, (c.uniques.get u).columns ≠ ids := by
    intro u hu hsame
    apply hnew
    show columns ∈ ((c.tables.get t).uniques.map c.unique).map fun u => columnNames u.columns
    rw [List.map_map, List.mem_map]
    refine ⟨u, hu, ?_⟩
    show columnNames ((c.uniques.get u).columns.map c.column) = columns
    rw [hsame, hnames]
  have hstep : PlainMutation c (c.addUnique ⟨t, ids⟩) :=
    ⟨.unique ⟨t, ids⟩ htissued (fun id hid => (howns id hid).1) hok hother, rfl⟩
  refine ⟨c.uniques.next, c.addUnique ⟨t, ids⟩, ?_, ?_⟩
  · have hfresh : ¬ ∃ u ∈ (c.tables.get t).uniques, (c.uniques.get u).columns = ids := by
      rintro ⟨u, hu, hsame⟩
      exact hother u hu hsame
    simp [Edit.createUnique, outcome_bind, hids, hok, check, hfresh]
    rfl
  · refine h.change ht hstep.aimed rfl rfl (fun _ => rfl) (fun _ _ => rfl) ?_
    have hmade : columnNames ((c.addUnique ⟨t, ids⟩).unique c.uniques.next).columns = columns := by
      unfold Catalog.unique
      rw [get_addUnique_next]
      exact hnames
    unfold shapeOf TableShape.addUnique
    rw [List.map_append, List.map_append, List.map_singleton, List.map_singleton, hmade]

/-- A column that is to be unique is made with a constraint over it alone, given that all constraints
are over columns that the table has. -/
theorem createColumn_unique (h : c.Draws s m) (ht : c.findTable? s name = some t)
    (hname : m.get? name = some sh) (spec : ColumnSpec) {type : ColumnType}
    (hfree : sh.columns.get? spec.name = none) (htype : ColumnType.ofKeyword? spec.type = some type)
    (hunique : spec.unique = true)
    (hcolumns : ∀ columns ∈ sh.uniques, ∀ x ∈ columns, sh.columns.contains x = true) :
    ∃ id d, outcome (Edit.createColumn t spec) c = (.ok id, d) ∧ d.findTable? s name = some t ∧
      d.Draws s (m.update name fun sh =>
        (sh.addColumn spec.name (spec.form type)).addUnique [spec.name]) := by
  have hnone := h.findColumn?_eq_none ht hname hfree
  obtain ⟨ht', hdrawn⟩ := h.addColumn ht hname spec type hfree
  have hname' : (m.update name (.addColumn spec.name (spec.form type))).get? name =
      some (sh.addColumn spec.name (spec.form type)) := by
    rw [OrderedMap.get?_update, if_pos rfl, hname, Option.map_some]
  have hnew : [spec.name] ∉ sh.uniques := by
    intro hmem
    have hcontains := hcolumns _ hmem spec.name List.mem_cons_self
    rw [OrderedMap.contains, hfree] at hcontains
    cases hcontains
  have hself : ∀ x ∈ [spec.name],
      (sh.addColumn spec.name (spec.form type)).columns.contains x = true := by
    intro x hx
    rw [List.mem_singleton.mp hx]
    exact OrderedMap.contains_insert_self _ _ _
  obtain ⟨u, d, hmade, ht'', hd⟩ := hdrawn.createUnique ht' hname' hself (List.nodup_singleton _) hnew
  refine ⟨c.columns.next, d, ?_, ht'', ?_⟩
  · have hsteps : outcome (Edit.createColumn t spec) c = outcome (do
        let _ ← Edit.createUnique t ([spec.name].map .named)
        pure c.columns.next) (c.addColumn (spec.entry t type)) := by
      simp [Edit.createColumn, Edit.columnType, outcome_bind, hnone, htype, hunique]
      rfl
    rw [hsteps, outcome_bind, hmade]
    rfl
  · rw [OrderedMap.update_update] at hd
    exact hd

/-- No table of a snapshot has an index of a name that none is found under. -/
theorem findIndex?_eq_none_iff (h : c.Draws s m) {index : String} : c.findIndex? s index = none ↔
    ∀ key other, m.get? key = some other → other.indexes.get? index = none := by
  rw [findIndex?, List.findSome?_eq_none_iff, ← h.shape]
  constructor
  · intro hfree key other hkey
    rw [get?_shape_snapshot, Option.map_eq_some_iff] at hkey
    obtain ⟨u, hu, rfl⟩ := hkey
    rw [shape_table, get?_indexes_shapeOf, hfree u (OrderedMap.mem_values_of_get? hu), Option.map_none]
  · intro hfree u hu
    obtain ⟨key, hkey⟩ := OrderedMap.mem_values_iff.mp hu
    have hother := hfree key (c.table u).shape (by
      rw [get?_shape_snapshot, findTable?, hkey, Option.map_some])
    rw [shape_table, get?_indexes_shapeOf] at hother
    exact Option.map_eq_none_iff.mp hother

/-- An index is made under a name that no table has an index of. -/
theorem createIndex (h : c.Draws s m) (ht : c.findTable? s name = some t)
    (hname : m.get? name = some sh) {index : String} {columns : List String} (unique : Bool)
    (hcolumns : ∀ x ∈ columns, sh.columns.contains x = true)
    (hfree : ∀ key other, m.get? key = some other → other.indexes.get? index = none) :
    ∃ i d, outcome (Edit.createIndex t index (columns.map .named) unique) c = (.ok i, d) ∧
      d.findTable? s name = some t ∧ d.Draws s (m.update name (.addIndex index columns unique)) := by
  obtain ⟨htissued, hschema, -⟩ := h.wellFormed.linked.table s name t ht
  have hshape := h.shapeOf_eq ht hname
  subst hshape
  obtain ⟨ids, hids, howns, hnames⟩ := outcome_resolveColumns h.wellFormed.linked hcolumns
  have hnone : c.findIndex? (c.tables.get t).schema index = none := by
    rw [hschema]
    exact h.findIndex?_eq_none_iff.mpr hfree
  have hok : (c.resolveIndex c.indexes.next ⟨t, index, ids, unique⟩).verify = .ok () := by
    rw [Index.verify, firstOf_eq_ok_iff, Index.violations_eq_nil_iff]
    exact howns.resolved
  have hstep : PlainMutation c (c.addIndex ⟨t, index, ids, unique⟩) :=
    ⟨.index ⟨t, index, ids, unique⟩ htissued (fun id hid => (howns id hid).1) hnone hok, rfl⟩
  refine ⟨c.indexes.next, c.addIndex ⟨t, index, ids, unique⟩, ?_, ?_⟩
  · simp [Edit.createIndex, outcome_bind, hnone, hids, hok, check]
    rfl
  · refine h.change ht hstep.aimed rfl rfl (fun _ => rfl) (fun _ _ => rfl) ?_
    unfold shapeOf TableShape.addIndex
    rw [OrderedMap.map_insert, OrderedMap.map_insert]
    unfold Catalog.index
    rw [get_addIndex_next, ← hnames]
    rfl

/-- A foreign key is made to another table, over as many different columns there as here. -/
theorem createForeignKey (h : c.Draws s m) (ht : c.findTable? s name = some t) {key : KeyForm} {u : TableId}
    (hu : c.findTable? s key.target = some u) (hfits : key.Fits m name) :
    ∃ k d, outcome (Edit.createForeignKey t (key.spec (.handle u))) c = (.ok k, d) ∧
      d.findTable? s name = some t ∧ d.Draws s (m.update name (.addForeignKey key)) := by
  obtain ⟨sh, hname, hlocal⟩ := hfits.localColumns
  obtain ⟨other, htarget, hforeign⟩ := hfits.foreignColumns
  obtain ⟨htissued, hschema, hcalled⟩ := h.wellFormed.linked.table s name t ht
  obtain ⟨huissued, huschema, hucalled⟩ := h.wellFormed.linked.table s key.target u hu
  have hshape := h.shapeOf_eq ht hname
  have htargetShape := h.shapeOf_eq hu htarget
  subst hshape htargetShape
  obtain ⟨localIds, hlocalIds, hlocalOwns, hlocalNames⟩ :=
    outcome_resolveColumns h.wellFormed.linked hlocal
  obtain ⟨foreignIds, hforeignIds, hforeignOwns, hforeignNames⟩ :=
    outcome_resolveColumns h.wellFormed.linked hforeign
  set entry : ForeignKeyEntry := ⟨t, u, localIds, foreignIds, key.onUpdate, key.onDelete⟩ with hentry
  have hut : u ≠ t := by
    rintro rfl
    exact hfits.target_ne (hucalled.symm.trans hcalled)
  have hok : (c.resolveForeignKey c.foreignKeys.next entry).verify = .ok () :=
    verify_resolveForeignKey hut hlocalOwns hforeignOwns (hforeignNames ▸ hfits.foreign_ne_nil)
      (hforeignNames ▸ hlocalNames ▸ hfits.length_eq) (hlocalNames ▸ hfits.localNodup)
      (hforeignNames ▸ hfits.foreignNodup)
  have hmutation : Mutation c (c.addForeignKey entry) :=
    .foreignKey entry htissued huissued (huschema.trans hschema.symm)
      (fun id hid => (hlocalOwns id hid).1) (fun id hid => (hforeignOwns id hid).1) hok
  have hstep : AimedMutation c (c.addForeignKey entry) := by
    refine ⟨hmutation, fun e he => ?_⟩
    rw [← Edit.Command.addForeignKey_inj he]
    exact ⟨s, key.target, hu⟩
  refine ⟨c.foreignKeys.next, c.addForeignKey entry, ?_, ?_⟩
  · simp [Edit.createForeignKey, KeyForm.spec, resolveTable, outcome_bind, huschema, hschema, hlocalIds,
      hforeignIds, Edit.action, Action.ofKeyword?_keyword, ← hentry, hok, check]
    rfl
  · refine h.change ht hstep rfl rfl (fun _ => rfl) (fun _ _ => rfl) ?_
    have hmade : ((c.addForeignKey entry).foreignKey c.foreignKeys.next).form = key := by
      rw [form_addForeignKey]
      show KeyForm.mk (columnNames (localIds.map c.column)) (columnNames (foreignIds.map c.column))
        (c.tableName u) key.onUpdate key.onDelete = key
      rw [hlocalNames, hforeignNames]
      exact congrArg (KeyForm.mk key.localColumns key.foreignColumns · key.onUpdate key.onDelete) hucalled
    unfold shapeOf TableShape.addForeignKey
    rw [List.map_append, List.map_append, List.map_singleton, List.map_singleton, hmade]

end Catalog.Draws
end SchemaSync
