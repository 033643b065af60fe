import SchemaSync.Catalog.Edit
import SchemaSync.Proofs.OrderedMap

/-!
# Mutations of a catalog

Every edit that changes a catalog does so by one or more of ten mutations, each under conditions that
the edit has checked. `Catalog.Mutation` lists them, one constructor a mutation. An invariant of catalogs
is proved by cases on a mutation, and no proof looks into an edit again.

`Catalog.Linked` is the invariant that ties columns to tables: the columns of a table are its own and
stand under their own names, no column ever leaves the table it was made on, and constraints mention
only columns that have been made. The main statement is `Catalog.Mutation.linked`.
-/

namespace SchemaSync

/-! ## Stores -/

namespace Store

variable {kind : Kind} {α : Type} [Inhabited α]

/-- A handle of a store has been given out. -/
def Issued (s : Store kind α) (h : Handle kind) : Prop := h.number < s.size

instance (s : Store kind α) : DecidablePred s.Issued :=
  fun h => inferInstanceAs (Decidable (h.number < s.size))

theorem get_add (s : Store kind α) (a : α) (h : Handle kind) :
    (s.add a).get h = if h = s.next then a else s.get h := by
  by_cases hn : h = s.next
  · rw [if_pos hn, hn, get_add_next]
  · rw [if_neg hn]
    by_cases hlt : h.number < s.size
    · exact get_add_of_lt a hlt
    · have hsize : s.cells.size ≤ h.number := Nat.le_of_not_lt hlt
      have hne : h.number ≠ s.cells.size := fun e => hn (by cases h; cases e; rfl)
      have hadd : (s.cells.push a)[h.number]? = none := by
        rw [Array.getElem?_push, if_neg hne, Array.getElem?_eq_none hsize]
      simp [get, add, hadd, Array.getElem?_eq_none hsize]

theorem get_update {s : Store kind α} {h : Handle kind} (f : α → α) (hs : s.Issued h)
    (j : Handle kind) : (s.update h f).get j = if j = h then f (s.get h) else s.get j := by
  by_cases hj : j = h
  · rw [if_pos hj, hj, get_update_self f hs]
  · rw [if_neg hj, get_update_of_ne f hj]

theorem get_of_not_issued {s : Store kind α} {h : Handle kind} (hs : ¬ s.Issued h) :
    s.get h = default := by
  have hsize : s.cells.size ≤ h.number := Nat.le_of_not_lt hs
  simp [get, Array.getElem?_eq_none hsize]

omit [Inhabited α] in
theorem issued_add {s : Store kind α} {a : α} {h : Handle kind} :
    (s.add a).Issued h ↔ s.Issued h ∨ h = s.next := by
  rw [Issued, Issued, size_add, Nat.lt_succ_iff_lt_or_eq]
  refine or_congr Iff.rfl ⟨fun e => ?_, fun e => by rw [e]; rfl⟩
  cases h
  cases e
  rfl

omit [Inhabited α] in
theorem Issued.add {s : Store kind α} {h : Handle kind} (hs : s.Issued h) (a : α) :
    (s.add a).Issued h := issued_add.mpr (Or.inl hs)

omit [Inhabited α] in
theorem issued_next_add (s : Store kind α) (a : α) : (s.add a).Issued s.next :=
  issued_add.mpr (Or.inr rfl)

omit [Inhabited α] in
theorem Issued.ne_next {s : Store kind α} {h : Handle kind} (hs : s.Issued h) : h ≠ s.next := by
  rintro rfl
  exact Nat.lt_irrefl _ hs

omit [Inhabited α] in
@[simp] theorem issued_update {s : Store kind α} {h j : Handle kind} {f : α → α} :
    (s.update h f).Issued j ↔ s.Issued j := by
  rw [Issued, Issued, size_update]

/-- What has been given out stays as it is when more is put into the store. -/
theorem Issued.get_add {s : Store kind α} {h : Handle kind} (hs : s.Issued h) (a : α) :
    (s.add a).Issued h ∧ (s.add a).get h = s.get h :=
  ⟨hs.add a, get_add_of_lt a hs⟩

/-- What a change of a part leaves alone is the same everywhere in the store. -/
theorem field_update {β : Type} (s : Store kind α) (h : Handle kind) {f : α → α} (field : α → β)
    (hf : ∀ a, field (f a) = field a) (j : Handle kind) :
    field ((s.update h f).get j) = field (s.get j) := by
  by_cases hj : j = h
  · subst hj
    by_cases hs : s.Issued j
    · rw [get_update_self f hs, hf]
    · rw [get_of_not_issued hs, get_of_not_issued (by simpa using hs)]
  · rw [get_update_of_ne f hj]

/-- Behind a handle that has not been given out there is as little as on a new part. -/
theorem field_add {β : Type} (s : Store kind α) {a : α} (field : α → β)
    (ha : field a = field default) (j : Handle kind) :
    field ((s.add a).get j) = field (s.get j) := by
  rw [get_add]
  split
  · next hj =>
    have hnot : ¬ s.Issued j := fun h => h.ne_next hj
    rw [ha, get_of_not_issued hnot]
  · rfl

end Store

namespace Catalog

variable {c d : Catalog}

/-! ## The changed catalogs -/

def addTable (c : Catalog) (s : SnapshotId) (name : String) : Catalog :=
  { c with tables := c.tables.add ⟨s, name, .empty, .empty, [], [], .empty⟩ }.updateSnapshot s
    fun e => { e with tables := e.tables.insert name c.tables.next }

def renameTable (c : Catalog) (s : SnapshotId) (t : TableId) (old new : String) : Catalog :=
  (c.updateTable t fun e => { e with name := new }).updateSnapshot s
    fun e => { e with tables := e.tables.rename old new }

def eraseTable (c : Catalog) (s : SnapshotId) (name : String) : Catalog :=
  c.updateSnapshot s fun e => { e with tables := e.tables.erase name }

def addColumn (c : Catalog) (entry : ColumnEntry) : Catalog :=
  { c with columns := c.columns.add entry }.updateTable entry.owner
    fun e => { e with columns := e.columns.insert entry.name c.columns.next }

def renameColumn (c : Catalog) (t : TableId) (id : ColumnId) (old new : String) : Catalog :=
  (c.updateColumn id fun e => { e with name := new }).updateTable t
    fun e => { e with columns := e.columns.rename old new }

def fillSlot (c : Catalog) (t : TableId) (slot : Int) (id : ColumnId) : Catalog :=
  c.updateTable t fun e => { e with slots := e.slots.insert slot id }

def addIndex (c : Catalog) (entry : IndexEntry) : Catalog :=
  { c with indexes := c.indexes.add entry }.updateTable entry.owner
    fun e => { e with indexes := e.indexes.insert entry.name c.indexes.next }

def addUnique (c : Catalog) (entry : UniqueEntry) : Catalog :=
  { c with uniques := c.uniques.add entry }.updateTable entry.owner
    fun e => { e with uniques := e.uniques ++ [c.uniques.next] }

def addForeignKey (c : Catalog) (entry : ForeignKeyEntry) : Catalog :=
  { c with foreignKeys := c.foreignKeys.add entry }.updateTable entry.owner
    fun e => { e with foreignKeys := e.foreignKeys ++ [c.foreignKeys.next] }

@[simp] theorem get_addColumn_next (c : Catalog) (entry : ColumnEntry) :
    (c.addColumn entry).columns.get c.columns.next = entry := Store.get_add_next _ _

@[simp] theorem get_addIndex_next (c : Catalog) (entry : IndexEntry) :
    (c.addIndex entry).indexes.get c.indexes.next = entry := Store.get_add_next _ _

@[simp] theorem get_addUnique_next (c : Catalog) (entry : UniqueEntry) :
    (c.addUnique entry).uniques.get c.uniques.next = entry := Store.get_add_next _ _

@[simp] theorem get_addForeignKey_next (c : Catalog) (entry : ForeignKeyEntry) :
    (c.addForeignKey entry).foreignKeys.get c.foreignKeys.next = entry := Store.get_add_next _ _

/-- A mutation that an edit makes, with what the edit has checked before. -/
inductive Mutation : Catalog → Catalog → Prop
  | snapshot {c : Catalog} : Mutation c c.addSnapshot
  | table {c : Catalog} {s : SnapshotId} {name : String} (hs : c.snapshots.Issued s)
      (hfree : c.findTable? s name = none) : Mutation c (c.addTable s name)
  | tableName {c : Catalog} {s : SnapshotId} {t : TableId} {old new : String}
      (hold : c.findTable? s old = some t) (hfree : c.findTable? s new = none) :
      Mutation c (c.renameTable s t old new)
  | noTable {c : Catalog} {s : SnapshotId} {t : TableId} {name : String}
      (hname : c.findTable? s name = some t)
      (hunused : ((c.snapshot s).referencingTables.get? name).getD [] = []) :
      Mutation c (c.eraseTable s (c.tableName t))
  | column {c : Catalog} (entry : ColumnEntry) (ht : c.tables.Issued entry.owner)
      (hfree : c.findColumn? entry.owner entry.name = none) (hdefault : entry.default ≠ some "NULL") :
      Mutation c (c.addColumn entry)
  | columnName {c : Catalog} {t : TableId} {id : ColumnId} {old new : String}
      (hold : c.findColumn? t old = some id) (hfree : c.findColumn? t new = none) :
      Mutation c (c.renameColumn t id old new)
  | slot {c : Catalog} {t : TableId} {slot : Int} {id : ColumnId} (ht : c.tables.Issued t)
      (hid : c.columns.Issued id) (hpos : 1 ≤ slot)
      (hfree : (c.tables.get t).slots.contains slot = false)
      (howner : (c.columns.get id).owner = t) (hnew : id ∉ (c.tables.get t).slots.values) :
      Mutation c (c.fillSlot t slot id)
  | index {c : Catalog} (entry : IndexEntry) (ht : c.tables.Issued entry.owner)
      (hids : ∀ id ∈ entry.columns, c.columns.Issued id)
      (hfree : c.findIndex? (c.tables.get entry.owner).schema entry.name = none)
      (hok : (c.resolveIndex c.indexes.next entry).verify = .ok ()) : Mutation c (c.addIndex entry)
  | unique {c : Catalog} (entry : UniqueEntry) (ht : c.tables.Issued entry.owner)
      (hids : ∀ id ∈ entry.columns, c.columns.Issued id)
      (hok : (c.resolveUnique c.uniques.next entry).verify = .ok ())
      (hnew : ∀ u ∈ (c.tables.get entry.owner).uniques, (c.uniques.get u).columns ≠ entry.columns) :
      Mutation c (c.addUnique entry)
  | foreignKey {c : Catalog} (entry : ForeignKeyEntry) (ht : c.tables.Issued entry.owner)
      (htarget : c.tables.Issued entry.target)
      (hschema : (c.tables.get entry.target).schema = (c.tables.get entry.owner).schema)
      (hlocal : ∀ id ∈ entry.localColumns, c.columns.Issued id)
      (hforeign : ∀ id ∈ entry.foreignColumns, c.columns.Issued id)
      (hok : (c.resolveForeignKey c.foreignKeys.next entry).verify = .ok ()) :
      Mutation c (c.addForeignKey entry)

abbrev Mutations : Catalog → Catalog → Prop := Relation.ReflTransGen Mutation

/-- A mutation that makes no foreign key. -/
def PlainMutation (c d : Catalog) : Prop := Mutation c d ∧ d.foreignKeys = c.foreignKeys

abbrev PlainMutations : Catalog → Catalog → Prop := Relation.ReflTransGen PlainMutation

theorem PlainMutations.mutations (h : PlainMutations c d) : Mutations c d :=
  Relation.ReflTransGen.mono (fun _ _ (hstep : PlainMutation _ _) => hstep.1) c d h

/-! ## Columns and their tables -/

/-- A catalog in which columns and tables belong together, and constraints mention only columns
that have been made. -/
structure Linked (c : Catalog) : Prop where
  /-- Tables that a snapshot holds are its own, and go by the names they are held under. -/
  table : ∀ s name t, c.findTable? s name = some t →
    c.tables.Issued t ∧ (c.tables.get t).schema = s ∧ c.tableName t = name
  /-- Columns that a table holds are its own, and go by the names they are held under. -/
  column : ∀ t name id, c.findColumn? t name = some id →
    c.columns.Issued id ∧ (c.columns.get id).owner = t ∧ (c.columns.get id).name = name
  /-- Every column is held by the table that it was made on. -/
  held : ∀ id, c.columns.Issued id →
    c.findColumn? (c.columns.get id).owner (c.columns.get id).name = some id
  index : ∀ i, ∀ id ∈ (c.indexes.get i).columns, c.columns.Issued id
  unique : ∀ u, ∀ id ∈ (c.uniques.get u).columns, c.columns.Issued id
  localColumn : ∀ k, ∀ id ∈ (c.foreignKeys.get k).localColumns, c.columns.Issued id
  foreignColumn : ∀ k, ∀ id ∈ (c.foreignKeys.get k).foreignColumns, c.columns.Issued id

theorem linked_empty : empty.Linked where
  table := by rintro s name t ⟨⟩
  column := by rintro t name id ⟨⟩
  held := by rintro id ⟨⟩
  index := by rintro i id ⟨⟩
  unique := by rintro u id ⟨⟩
  localColumn := by rintro k id ⟨⟩
  foreignColumn := by rintro k id ⟨⟩

/-! ### Look-ups in a changed catalog -/

theorem issued_of_findTable? {s : SnapshotId} {name : String} {t : TableId}
    (h : c.findTable? s name = some t) : c.snapshots.Issued s := by
  by_contra hs
  rw [findTable?, Store.get_of_not_issued hs] at h
  cases h

theorem issued_of_findColumn? {t : TableId} {name : String} {id : ColumnId}
    (h : c.findColumn? t name = some id) : c.tables.Issued t := by
  by_contra ht
  rw [findColumn?, Store.get_of_not_issued ht] at h
  cases h

theorem findTable?_updateSnapshot {s : SnapshotId} (hs : c.snapshots.Issued s)
    (f : SnapshotEntry → SnapshotEntry) (r : SnapshotId) (name : String) :
    (c.updateSnapshot s f).findTable? r name =
      if r = s then (f (c.snapshots.get s)).tables.get? name else c.findTable? r name := by
  rw [findTable?, updateSnapshot, Store.get_update f hs]
  by_cases hr : r = s
  · rw [if_pos hr, if_pos hr]
  · rw [if_neg hr, if_neg hr, findTable?]

theorem findColumn?_updateTable {t : TableId} (ht : c.tables.Issued t)
    (f : TableEntry → TableEntry) (u : TableId) (name : String) :
    (c.updateTable t f).findColumn? u name =
      if u = t then (f (c.tables.get t)).columns.get? name else c.findColumn? u name := by
  rw [findColumn?, updateTable, Store.get_update f ht]
  by_cases hu : u = t
  · rw [if_pos hu, if_pos hu]
  · rw [if_neg hu, if_neg hu, findColumn?]

/-- A change of a table that leaves its columns alone leaves every look-up of a column alone. -/
theorem findColumn?_updateTable_of_columns {t : TableId} {f : TableEntry → TableEntry}
    (hf : ∀ e, (f e).columns = e.columns) (u : TableId) (name : String) :
    (c.updateTable t f).findColumn? u name = c.findColumn? u name :=
  congrArg (fun columns => columns.get? name) (c.tables.field_update t TableEntry.columns hf u)

/-- What a new table has none of is the same on every table. -/
theorem field_addTable {β : Type} (field : TableEntry → β)
    (hf : ∀ s name, field ⟨s, name, .empty, .empty, [], [], .empty⟩ = field default) {s : SnapshotId}
    {name : String} (t : TableId) :
    field ((c.addTable s name).tables.get t) = field (c.tables.get t) :=
  c.tables.field_add field (hf s name) t

theorem findTable?_addSnapshot (s : SnapshotId) (name : String) :
    c.addSnapshot.findTable? s name = c.findTable? s name :=
  congrArg (fun tables => tables.get? name) (c.snapshots.field_add SnapshotEntry.tables rfl s)

/-- What a snapshot holds under a name after a table was made. -/
theorem findTable?_addTable_eq_some_iff {s : SnapshotId} (hs : c.snapshots.Issued s) {name : String}
    {r : SnapshotId} {key : String} {t : TableId} :
    (c.addTable s name).findTable? r key = some t ↔
      (r = s ∧ key = name ∧ t = c.tables.next) ∨
        (¬ (r = s ∧ key = name) ∧ c.findTable? r key = some t) := by
  have hfind : (c.addTable s name).findTable? r key =
      if r = s then ((c.snapshots.get s).tables.insert name c.tables.next).get? key
      else c.findTable? r key := findTable?_updateSnapshot hs _ r key
  rw [hfind]
  by_cases hr : r = s
  · subst hr
    rw [if_pos rfl, OrderedMap.get?_insert]
    by_cases hkey : name = key
    · simp [hkey, eq_comm]
    · simp [hkey, Ne.symm hkey, findTable?]
  · simp [hr]

/-- A name that is taken out of a snapshot leads nowhere; any other name leads where it did. -/
theorem findTable?_eraseTable (s : SnapshotId) (name : String) (r : SnapshotId) (key : String) :
    (c.eraseTable s name).findTable? r key =
      if r = s ∧ key = name then none else c.findTable? r key := by
  by_cases hs : c.snapshots.Issued s
  · have hfind : (c.eraseTable s name).findTable? r key =
        if r = s then ((c.snapshots.get s).tables.erase name).get? key
        else c.findTable? r key := findTable?_updateSnapshot hs _ r key
    rw [hfind]
    by_cases hr : r = s
    · rw [if_pos hr, OrderedMap.get?_erase, hr]
      simp [findTable?]
    · simp [hr]
  · by_cases hr : r = s
    · have hnone : ∀ e : Catalog, ¬ e.snapshots.Issued r → e.findTable? r key = none := by
        intro e he
        rw [findTable?, Store.get_of_not_issued he]
        rfl
      subst hr
      rw [hnone c hs, hnone (c.eraseTable r name) (by simpa [eraseTable, updateSnapshot] using hs)]
      simp
    · rw [if_neg fun h => hr h.1, findTable?, eraseTable, updateSnapshot, Store.get_update_of_ne _ hr,
        findTable?]

theorem findColumn?_addColumn {entry : ColumnEntry} (ht : c.tables.Issued entry.owner) (t : TableId)
    (name : String) : (c.addColumn entry).findColumn? t name =
      if t = entry.owner then
        ((c.tables.get entry.owner).columns.insert entry.name c.columns.next).get? name
      else c.findColumn? t name :=
  findColumn?_updateTable (c := { c with columns := c.columns.add entry }) ht _ t name

/-- A new column is found under its name on its owner. -/
theorem findColumn?_addColumn_self {entry : ColumnEntry} (ht : c.tables.Issued entry.owner) :
    (c.addColumn entry).findColumn? entry.owner entry.name = some c.columns.next := by
  rw [findColumn?_addColumn ht, if_pos rfl, OrderedMap.get?_insert, if_pos rfl]

theorem findColumn?_addColumn_of_ne {entry : ColumnEntry} (ht : c.tables.Issued entry.owner)
    {t : TableId} {name : String} (hne : ¬ (t = entry.owner ∧ name = entry.name)) :
    (c.addColumn entry).findColumn? t name = c.findColumn? t name := by
  rw [findColumn?_addColumn ht]
  by_cases htable : t = entry.owner
  · rw [if_pos htable, OrderedMap.get?_insert, if_neg fun h => hne ⟨htable, h.symm⟩, htable,
      findColumn?]
  · rw [if_neg htable]

/-- What a snapshot holds under a name after one of its tables got a new name. -/
theorem findTable?_renameTable_eq_some_iff {s : SnapshotId} {t : TableId} {old new : String}
    (hold : c.findTable? s old = some t) (hfree : c.findTable? s new = none) {r : SnapshotId}
    {name : String} {u : TableId} :
    (c.renameTable s t old new).findTable? r name = some u ↔
      (r = s ∧ name = new ∧ u = t) ∨ (¬ (r = s ∧ name = old) ∧ c.findTable? r name = some u) := by
  have hfind : (c.renameTable s t old new).findTable? r name =
      if r = s then ((c.snapshots.get s).tables.rename old new).get? name
      else c.findTable? r name := findTable?_updateSnapshot (issued_of_findTable? hold) _ r name
  rw [hfind]
  by_cases hr : r = s
  · subst hr
    rw [if_pos rfl, OrderedMap.get?_rename_eq_some_iff hold hfree]
    simp [findTable?]
  · rw [if_neg hr]
    simp [hr]

/-- What a table holds under a name after one of its columns got a new name. -/
theorem findColumn?_renameColumn_eq_some_iff {t : TableId} {id : ColumnId} {old new : String}
    (hold : c.findColumn? t old = some id) (hfree : c.findColumn? t new = none) {u : TableId}
    {name : String} {x : ColumnId} :
    (c.renameColumn t id old new).findColumn? u name = some x ↔
      (u = t ∧ name = new ∧ x = id) ∨ (¬ (u = t ∧ name = old) ∧ c.findColumn? u name = some x) := by
  have hfind : (c.renameColumn t id old new).findColumn? u name =
      if u = t then ((c.tables.get t).columns.rename old new).get? name else c.findColumn? u name :=
    findColumn?_updateTable (c := c.updateColumn id fun e => { e with name := new })
      (issued_of_findColumn? hold) _ u name
  rw [hfind]
  by_cases hu : u = t
  · subst hu
    rw [if_pos rfl, OrderedMap.get?_rename_eq_some_iff hold hfree]
    simp [findColumn?]
  · rw [if_neg hu]
    simp [hu]

/-! ### Every mutation keeps columns and tables together -/

namespace Linked

/-- The part of the invariant that speaks of columns survives when columns and constraints are the
same, and every look-up of a column answers as before. -/
theorem of_columns (hl : c.Linked)
    (htable : ∀ s name t, d.findTable? s name = some t →
      d.tables.Issued t ∧ (d.tables.get t).schema = s ∧ d.tableName t = name)
    (hfind : ∀ t name, d.findColumn? t name = c.findColumn? t name)
    (hcolumns : d.columns = c.columns) (hindexes : d.indexes = c.indexes)
    (huniques : d.uniques = c.uniques) (hforeignKeys : d.foreignKeys = c.foreignKeys) :
    d.Linked where
  table := htable
  column := by
    intro t name id h
    rw [hfind] at h
    rw [hcolumns]
    exact hl.column t name id h
  held := by
    intro id h
    rw [hcolumns] at h
    rw [hcolumns, hfind]
    exact hl.held id h
  index := by rw [hindexes, hcolumns]; exact hl.index
  unique := by rw [huniques, hcolumns]; exact hl.unique
  localColumn := by rw [hforeignKeys, hcolumns]; exact hl.localColumn
  foreignColumn := by rw [hforeignKeys, hcolumns]; exact hl.foreignColumn

theorem addSnapshot (hl : c.Linked) : c.addSnapshot.Linked := by
  refine hl.of_columns ?_ (fun _ _ => rfl) rfl rfl rfl rfl
  intro s name t h
  rw [findTable?_addSnapshot] at h
  exact hl.table s name t h

theorem addTable (hl : c.Linked) {s : SnapshotId} (hs : c.snapshots.Issued s) (name : String) :
    (c.addTable s name).Linked := by
  have hget : ∀ t, (c.addTable s name).tables.get t =
      if t = c.tables.next then ⟨s, name, .empty, .empty, [], [], .empty⟩ else c.tables.get t :=
    fun t => Store.get_add c.tables _ t
  refine hl.of_columns ?_ ?_ rfl rfl rfl rfl
  · intro r key t h
    rcases (findTable?_addTable_eq_some_iff hs).mp h with ⟨rfl, rfl, rfl⟩ | ⟨-, hold⟩
    · rw [tableName, hget, if_pos rfl]
      exact ⟨Store.issued_next_add _ _, rfl, rfl⟩
    · obtain ⟨hissued, hschema, hname⟩ := hl.table r key t hold
      rw [tableName, hget, if_neg hissued.ne_next]
      exact ⟨hissued.add _, hschema, hname⟩
  · intro t key
    exact congrArg (fun columns => columns.get? key)
      (field_addTable TableEntry.columns (fun _ _ => rfl) t)

/-- A change of one table that leaves its name and its snapshot alone leaves the snapshots with their
own tables. -/
theorem table_updateTable (hl : c.Linked) (t : TableId) {f : TableEntry → TableEntry}
    (hschema : ∀ e, (f e).schema = e.schema) (hname : ∀ e, (f e).name = e.name) (s : SnapshotId)
    (name : String) (u : TableId) (h : (c.updateTable t f).findTable? s name = some u) :
    (c.updateTable t f).tables.Issued u ∧ ((c.updateTable t f).tables.get u).schema = s ∧
      (c.updateTable t f).tableName u = name := by
  obtain ⟨hissued, hown, hcalled⟩ := hl.table s name u h
  refine ⟨by simpa [Catalog.updateTable] using hissued, ?_, ?_⟩
  · exact (c.tables.field_update t TableEntry.schema hschema u).trans hown
  · exact (c.tables.field_update t TableEntry.name hname u).trans hcalled

theorem updateTable (hl : c.Linked) (t : TableId) {f : TableEntry → TableEntry}
    (hcolumns : ∀ e, (f e).columns = e.columns) (hschema : ∀ e, (f e).schema = e.schema)
    (hname : ∀ e, (f e).name = e.name) : (c.updateTable t f).Linked :=
  hl.of_columns (hl.table_updateTable t hschema hname)
    (findColumn?_updateTable_of_columns hcolumns) rfl rfl rfl rfl

theorem renameTable (hl : c.Linked) {s : SnapshotId} {t : TableId} {old new : String}
    (hold : c.findTable? s old = some t) (hfree : c.findTable? s new = none) :
    (c.renameTable s t old new).Linked := by
  obtain ⟨ht, hown, hcalled⟩ := hl.table s old t hold
  have hget : ∀ u, (c.renameTable s t old new).tables.get u =
      if u = t then { c.tables.get t with name := new } else c.tables.get u :=
    Store.get_update _ ht
  have hissued : ∀ {u}, c.tables.Issued u → (c.renameTable s t old new).tables.Issued u := by
    intro u hu
    simpa [Catalog.renameTable, Catalog.updateTable, updateSnapshot] using hu
  refine hl.of_columns ?_ (findColumn?_updateTable_of_columns fun _ => rfl) rfl rfl rfl rfl
  intro r key u h
  rcases (findTable?_renameTable_eq_some_iff hold hfree).mp h with ⟨rfl, rfl, rfl⟩ | ⟨hother, hkept⟩
  · rw [tableName, hget, if_pos rfl]
    exact ⟨hissued ht, hown, rfl⟩
  · obtain ⟨hu, hschema, hname⟩ := hl.table r key u hkept
    -- Only `t` is held under the old name, and only in `s`.
    have hne : u ≠ t := by
      intro hut
      subst hut
      exact hother ⟨hschema.symm.trans hown, hname.symm.trans hcalled⟩
    rw [tableName, hget, if_neg hne]
    exact ⟨hissued hu, hschema, hname⟩

theorem eraseTable (hl : c.Linked) (s : SnapshotId) (name : String) :
    (c.eraseTable s name).Linked := by
  refine hl.of_columns ?_ (fun _ _ => rfl) rfl rfl rfl rfl
  intro r key t h
  rw [findTable?_eraseTable] at h
  split at h
  · cases h
  · exact hl.table r key t h

theorem addColumn (hl : c.Linked) {entry : ColumnEntry} (ht : c.tables.Issued entry.owner)
    (hfree : c.findColumn? entry.owner entry.name = none) : (c.addColumn entry).Linked := by
  have hget : ∀ id, (c.addColumn entry).columns.get id =
      if id = c.columns.next then entry else c.columns.get id := Store.get_add c.columns entry
  have hissued : ∀ {id}, c.columns.Issued id → (c.addColumn entry).columns.Issued id :=
    fun h => Store.Issued.add h entry
  refine ⟨?_, ?_, ?_, ?_, ?_, ?_, ?_⟩
  · exact hl.table_updateTable entry.owner (fun _ => rfl) fun _ => rfl
  · intro t name id h
    by_cases hnew : t = entry.owner ∧ name = entry.name
    · obtain ⟨rfl, rfl⟩ := hnew
      rw [findColumn?_addColumn_self ht] at h
      cases h
      rw [hget, if_pos rfl]
      exact ⟨Store.issued_next_add _ _, rfl, rfl⟩
    · rw [findColumn?_addColumn_of_ne ht hnew] at h
      obtain ⟨hid, howner, hname⟩ := hl.column t name id h
      rw [hget, if_neg hid.ne_next]
      exact ⟨hissued hid, howner, hname⟩
  · intro id hid
    rcases Store.issued_add.mp hid with hold | rfl
    · -- An earlier column is not the one under the new name, which was free.
      have hheld := hl.held id hold
      have hother : ¬ ((c.columns.get id).owner = entry.owner ∧
          (c.columns.get id).name = entry.name) := by
        intro h
        rw [h.1, h.2, hfree] at hheld
        cases hheld
      rw [hget, if_neg hold.ne_next, findColumn?_addColumn_of_ne ht hother, hheld]
    · rw [hget, if_pos rfl, findColumn?_addColumn_self ht]
  · exact fun i id h => hissued (hl.index i id h)
  · exact fun u id h => hissued (hl.unique u id h)
  · exact fun k id h => hissued (hl.localColumn k id h)
  · exact fun k id h => hissued (hl.foreignColumn k id h)

theorem renameColumn (hl : c.Linked) {t : TableId} {id : ColumnId} {old new : String}
    (hold : c.findColumn? t old = some id) (hfree : c.findColumn? t new = none) :
    (c.renameColumn t id old new).Linked := by
  obtain ⟨hid, howner, hcalled⟩ := hl.column t old id hold
  have hget : ∀ x, (c.renameColumn t id old new).columns.get x =
      if x = id then { c.columns.get id with name := new } else c.columns.get x :=
    Store.get_update _ hid
  have hissued : ∀ {x}, (c.renameColumn t id old new).columns.Issued x ↔ c.columns.Issued x := by
    intro x
    simp [Catalog.renameColumn, Catalog.updateTable, updateColumn]
  refine ⟨?_, ?_, ?_, ?_, ?_, ?_, ?_⟩
  · exact hl.table_updateTable t (fun _ => rfl) fun _ => rfl
  · intro u name x h
    rcases (findColumn?_renameColumn_eq_some_iff hold hfree).mp h with
      ⟨rfl, rfl, rfl⟩ | ⟨hother, hkept⟩
    · rw [hget, if_pos rfl]
      exact ⟨hissued.mpr hid, howner, rfl⟩
    · obtain ⟨hx, hxowner, hxname⟩ := hl.column u name x hkept
      -- Only `id` is held under the old name, and only on `t`.
      have hne : x ≠ id := by
        intro hxid
        subst hxid
        exact hother ⟨hxowner.symm.trans howner, hxname.symm.trans hcalled⟩
      rw [hget, if_neg hne]
      exact ⟨hissued.mpr hx, hxowner, hxname⟩
  · intro x hx
    have hheld := hl.held x (hissued.mp hx)
    rw [hget]
    by_cases hxid : x = id
    · rw [if_pos hxid, hxid]
      exact (findColumn?_renameColumn_eq_some_iff hold hfree).mpr (Or.inl ⟨howner, rfl, rfl⟩)
    · rw [if_neg hxid]
      refine (findColumn?_renameColumn_eq_some_iff hold hfree).mpr (Or.inr ⟨?_, hheld⟩)
      intro hsame
      rw [hsame.1, hsame.2, hold] at hheld
      exact hxid (Option.some.inj hheld).symm
  · exact fun i x h => hissued.mpr (hl.index i x h)
  · exact fun u x h => hissued.mpr (hl.unique u x h)
  · exact fun k x h => hissued.mpr (hl.localColumn k x h)
  · exact fun k x h => hissued.mpr (hl.foreignColumn k x h)

theorem addIndex (hl : c.Linked) {entry : IndexEntry}
    (hids : ∀ id ∈ entry.columns, c.columns.Issued id) : (c.addIndex entry).Linked := by
  have hbase : ({ c with indexes := c.indexes.add entry } : Catalog).Linked := by
    refine ⟨hl.table, hl.column, hl.held, ?_, hl.unique, hl.localColumn, hl.foreignColumn⟩
    intro i id h
    rw [Store.get_add] at h
    split at h
    · exact hids id h
    · exact hl.index i id h
  exact hbase.updateTable entry.owner (fun _ => rfl) (fun _ => rfl) fun _ => rfl

theorem addUnique (hl : c.Linked) {entry : UniqueEntry}
    (hids : ∀ id ∈ entry.columns, c.columns.Issued id) : (c.addUnique entry).Linked := by
  have hbase : ({ c with uniques := c.uniques.add entry } : Catalog).Linked := by
    refine ⟨hl.table, hl.column, hl.held, hl.index, ?_, hl.localColumn, hl.foreignColumn⟩
    intro u id h
    rw [Store.get_add] at h
    split at h
    · exact hids id h
    · exact hl.unique u id h
  exact hbase.updateTable entry.owner (fun _ => rfl) (fun _ => rfl) fun _ => rfl

theorem addForeignKey (hl : c.Linked) {entry : ForeignKeyEntry}
    (hlocal : ∀ id ∈ entry.localColumns, c.columns.Issued id)
    (hforeign : ∀ id ∈ entry.foreignColumns, c.columns.Issued id) :
    (c.addForeignKey entry).Linked := by
  have hbase : ({ c with foreignKeys := c.foreignKeys.add entry } : Catalog).Linked := by
    refine ⟨hl.table, hl.column, hl.held, hl.index, hl.unique, ?_, ?_⟩
    · intro k id h
      rw [Store.get_add] at h
      split at h
      · exact hlocal id h
      · exact hl.localColumn k id h
    · intro k id h
      rw [Store.get_add] at h
      split at h
      · exact hforeign id h
      · exact hl.foreignColumn k id h
  exact hbase.updateTable entry.owner (fun _ => rfl) (fun _ => rfl) fun _ => rfl

end Linked

/-- Every mutation keeps columns and tables together. -/
theorem Mutation.linked (h : Mutation c d) (hl : c.Linked) : d.Linked := by
  cases h with
  | snapshot => exact hl.addSnapshot
  | table hs _ => exact hl.addTable hs _
  | tableName hold hfree => exact hl.renameTable hold hfree
  | noTable _ _ => exact hl.eraseTable _ _
  | column entry ht hfree _ => exact hl.addColumn ht hfree
  | columnName hold hfree => exact hl.renameColumn hold hfree
  | slot _ _ _ _ _ _ => exact hl.updateTable _ (fun _ => rfl) (fun _ => rfl) fun _ => rfl
  | index entry _ hids _ _ => exact hl.addIndex hids
  | unique entry _ hids _ _ => exact hl.addUnique hids
  | foreignKey entry _ _ _ hlocal hforeign _ => exact hl.addForeignKey hlocal hforeign

/-- A handle that has been given out stays good. -/
theorem Mutation.issued (h : Mutation c d) :
    (∀ t, c.tables.Issued t → d.tables.Issued t) ∧ ∀ id, c.columns.Issued id → d.columns.Issued id := by
  cases h with
  | snapshot => exact ⟨fun _ => id, fun _ => id⟩
  | table => exact ⟨fun _ ht => Store.Issued.add ht _, fun _ => id⟩
  | column =>
      refine ⟨fun t ht => ?_, fun id hid => Store.Issued.add hid _⟩
      simpa [addColumn, updateTable] using ht
  | columnName =>
      refine ⟨fun t ht => ?_, fun id hid => ?_⟩
      · simpa [renameColumn, updateTable, updateColumn] using ht
      · simpa [renameColumn, updateTable, updateColumn] using hid
  | noTable => exact ⟨fun _ => id, fun _ => id⟩
  | tableName | slot | index | unique | foreignKey =>
      refine ⟨fun t ht => ?_, fun _ => id⟩
      simpa [renameTable, fillSlot, addIndex, addUnique, addForeignKey, updateTable,
        updateSnapshot] using ht

theorem Mutations.issued_table (h : Mutations c d) {t : TableId} (ht : c.tables.Issued t) :
    d.tables.Issued t := by
  induction h with
  | refl => exact ht
  | tail _ hstep ih => exact hstep.issued.1 t ih

theorem Mutations.issued_column (h : Mutations c d) {id : ColumnId} (hid : c.columns.Issued id) :
    d.columns.Issued id := by
  induction h with
  | refl => exact hid
  | tail _ hstep ih => exact hstep.issued.2 id ih

theorem Mutations.linked (h : Mutations c d) (hl : c.Linked) : d.Linked := by
  induction h with
  | refl => exact hl
  | tail _ hstep ih => exact hstep.linked ih

end Catalog
end SchemaSync
