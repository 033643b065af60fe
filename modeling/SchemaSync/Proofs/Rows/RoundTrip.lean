import SchemaSync.Proofs.Diff.FixedPoint
import SchemaSync.Proofs.Rows.Columns
import SchemaSync.Proofs.Rows.Passes

/-!
# Snapshots read back

From the answers that report a snapshot an assembly makes the snapshot again (`Snapshot.ReadFrom`): the same
tables and columns in order, the same key slots, and the constraints and indexes of every table in the order
of the report. That a column counts up is not reported. What is read back differs from the snapshot in
order only, so nothing is left to be done between the two: `Snapshot.ReadFrom.diff_eq`.

That the assembly goes through is a matter of its three passes (`Rows.passes_report`). The column rows draw bare
tables; on these every group of foreign key rows comes to its key, and every group of index rows lists its
constraint or its index.
-/

namespace SchemaSync

open Rows

variable {s found : Snapshot} {r : Rows.Report} {name : String} {t u : Table}

/-- A snapshot whose tables a database reports in full: it has no unique index, no name that the database
keeps for itself, and no table, index or unique constraint without columns. -/
structure Snapshot.Reportable (s : Snapshot) : Prop where
  uniqueIndexes : s.uniqueIndexes = []
  table : ∀ name ∈ s.tables.keys, Selection.isInternal name = false
  index : ∀ name t, s.tables.get? name = some t →
    ∀ n ∈ t.indexes.keys, Selection.startsWith n "sqlite_autoindex" = false
  columns : ∀ name t, s.tables.get? name = some t → t.columns.entries ≠ []
  indexColumns : ∀ name t, s.tables.get? name = some t → ∀ i ∈ t.indexes.values, i.columns ≠ []
  uniqueColumns : ∀ name t, s.tables.get? name = some t → ∀ u ∈ t.uniques, u.columns ≠ []

/-- The test of what is reported in full. -/
def Snapshot.isReportable (s : Snapshot) : Bool :=
  s.uniqueIndexes.isEmpty && s.tables.entries.all fun e =>
    !Selection.isInternal e.1 &&
      e.2.indexes.keys.all (fun n => !Selection.startsWith n "sqlite_autoindex") &&
      !e.2.columns.entries.isEmpty && e.2.indexes.values.all (fun i => !i.columns.isEmpty) &&
      e.2.uniques.all fun u => !u.columns.isEmpty

theorem Snapshot.isReportable_iff : s.isReportable = true ↔ s.Reportable := by
  simp only [isReportable, Bool.and_eq_true, List.all_eq_true, Prod.forall, Bool.not_eq_true',
    OrderedMap.mem_entries_iff_get?, List.isEmpty_iff, List.isEmpty_eq_false_iff]
  constructor
  · intro h
    obtain ⟨huniqueIndexes, htable⟩ := h
    refine ⟨huniqueIndexes, ?_, fun name t ht => (htable name t ht).1.1.1.2,
      fun name t ht => (htable name t ht).1.1.2, fun name t ht => (htable name t ht).1.2,
      fun name t ht => (htable name t ht).2⟩
    intro name hname
    obtain ⟨t, ht⟩ := OrderedMap.mem_keys_iff.mp hname
    exact (htable name t ht).1.1.1.1
  · intro h
    refine ⟨h.uniqueIndexes, fun name t ht => ⟨⟨⟨⟨?_, h.index name t ht⟩, h.columns name t ht⟩,
      h.indexColumns name t ht⟩, h.uniqueColumns name t ht⟩⟩
    exact h.table name (OrderedMap.mem_keys_iff.mpr ⟨t, ht⟩)

/-- A snapshot that was read back from a report of `s`: the tables of `s` with their columns and key slots,
and with constraints and indexes in the order of the report. No column counts up. -/
structure Snapshot.ReadFrom (found s : Snapshot) (r : Rows.Report) : Prop where
  names : found.tables.keys = s.tables.keys
  columns : ∀ name t u, found.tables.get? name = some t → s.tables.get? name = some u →
    t.columns.map Column.form = u.columns.map fun x => { x.form with autoIncrement := false }
  slots : ∀ name t u, found.tables.get? name = some t → s.tables.get? name = some u →
    ∀ slot, (t.slots.get? slot).map Column.name = (u.slots.get? slot).map Column.name
  uniques : ∀ name t, found.tables.get? name = some t →
    t.uniques.map (fun u => columnNames u.columns) = r.uniquesOf name
  foreignKeys : ∀ name t, found.tables.get? name = some t →
    t.foreignKeys.map ForeignKey.form = r.keysOf name
  indexes : ∀ name t, found.tables.get? name = some t →
    t.indexes.entries.map (fun e => (e.1, columnNames e.2.columns, e.2.unique)) =
      (r.indexesOf name).map fun e => (e.1, e.2, false)

/-! ## What groups come to -/

namespace Rows

/-- Rows that name columns of their target lead to them. -/
theorem leadTo_of_named {sh : TableShape} {rows : List ForeignKeyRow} {names : List String}
    (hnames : rows.map ForeignKeyRow.foreignColumn = names.map some)
    (hcontains : ∀ x ∈ names, sh.columns.contains x = true) : LeadTo sh rows names := by
  unfold LeadTo
  generalize 0 = place
  induction rows generalizing names place with
  | nil =>
      obtain rfl : names = [] := List.map_eq_nil_iff.mp hnames.symm
      exact .nil
  | cons r rows ih =>
      cases names with
      | nil => cases hnames
      | cons name names =>
          obtain ⟨hfirst, hrest⟩ := List.cons.inj hnames
          obtain ⟨hname, hothers⟩ := List.forall_mem_cons.mp hcontains
          rw [List.zipIdx_cons]
          exact .cons ⟨.inl hfirst, hname⟩ (ih hrest hothers (place + 1))

namespace KeyGroup

variable {m : OrderedMap String TableShape} {g : KeyGroup}

theorem map_rows (h : g.key.foreignColumns.length = g.key.localColumns.length) :
    g.rows.map ForeignKeyRow.localColumn = g.key.localColumns ∧
      g.rows.map ForeignKeyRow.foreignColumn = g.key.foreignColumns.map some := by
  constructor
  · have hleft : g.rows.map ForeignKeyRow.localColumn =
        (g.key.localColumns.zip g.key.foreignColumns).map Prod.fst :=
      map_mapIdx (by intro i p; rfl) _
    rw [hleft, List.map_fst_zip (le_of_eq h.symm)]
  · have hright : g.rows.map ForeignKeyRow.foreignColumn =
        (g.key.localColumns.zip g.key.foreignColumns).map (some ∘ Prod.snd) :=
      map_mapIdx (by intro i p; rfl) _
    rw [hright, ← List.map_map, List.map_snd_zip (le_of_eq h)]

/-- The rows of a foreign key that can be made come to this key. -/
theorem keyResult (h : g.key.Fits m g.table) : KeyResult m g.table g.number g.rows (.ok g.key) := by
  obtain ⟨hlocals, hforeigns⟩ := map_rows h.length_eq
  obtain ⟨-, -, hrules⟩ := KeyForm.fits_iff.mp h
  obtain ⟨sh, hsh, hcontains⟩ := h.foreignColumns
  have hlead : LeadTo sh g.rows g.key.foreignColumns := leadTo_of_named hforeigns hcontains
  cases hrows : g.rows with
  | nil =>
      rw [hrows] at hforeigns
      exact absurd (List.map_eq_nil_iff.mp hforeigns.symm) h.foreign_ne_nil
  | cons first rest =>
      obtain ⟨-, htarget, hupdate, hdelete⟩ := mem_rows (hrows ▸ List.mem_cons_self : first ∈ g.rows)
      rw [hrows] at hlocals hlead
      exact .made ⟨hlocals.symm, h.localColumns, htarget.symm, ⟨sh, htarget ▸ hsh, hlead⟩, hupdate.symm,
        hdelete.symm⟩ hrules

def outcome (g : KeyGroup) : KeyOutcome := ⟨g.table, g.number, .ok g.key⟩

end KeyGroup

namespace IndexGroup

variable {m : OrderedMap String TableShape} {g : IndexGroup} {l : IndexListing}

/-- What the rows of a group list. -/
inductive ListedAs (g : IndexGroup) : IndexListing → Prop where
  | primaryKey {parts : List KeyPart} {flag : Int} {columns : Option (List String)}
      (hcontent : g.content = .primaryKey parts) : ListedAs g ⟨g.table, g.index, "pk", flag, columns⟩
  | unique {columns : List String} (hcontent : g.content = .unique columns) :
      ListedAs g ⟨g.table, g.index, "u", 1, some columns⟩
  | index {columns : List String} (hcontent : g.content = .index columns) :
      ListedAs g ⟨g.table, g.index, "c", 0, some columns⟩

/-- The columns are those of the table, and no index of this name is one that a database makes itself. -/
def Fits (m : OrderedMap String TableShape) (g : IndexGroup) : Prop :=
  match g.content with
  | .primaryKey _ => True
  | .unique columns => HasColumns m g.table columns ∧ columns ≠ [] ∧ columns.Nodup
  | .index columns => HasColumns m g.table columns ∧ columns ≠ [] ∧
      Selection.startsWith g.index "sqlite_autoindex" = false

theorem fits_unique_iff {columns : List String} (hcontent : g.content = .unique columns) :
    g.Fits m ↔ HasColumns m g.table columns ∧ columns ≠ [] ∧ columns.Nodup := by
  unfold Fits
  rw [hcontent]

theorem fits_index_iff {columns : List String} (hcontent : g.content = .index columns) :
    g.Fits m ↔ HasColumns m g.table columns ∧ columns ≠ [] ∧
      Selection.startsWith g.index "sqlite_autoindex" = false := by
  unfold Fits
  rw [hcontent]

/-- The rows of a group may come shuffled. -/
theorem listedAs_ofRows (h : g.Fits m) {rows : List IndexRow} (hrows : rows.Perm g.rows) :
    g.ListedAs (.ofRows g.table g.index (byPosition IndexRow.position rows)) := by
  unfold IndexGroup.rows at hrows
  cases hcontent : g.content with
  | primaryKey parts =>
      rw [hcontent] at hrows
      have horigin : ∀ x ∈ byPosition IndexRow.position rows, x.origin = "pk" := by
        intro x hx
        obtain ⟨p, -, rfl⟩ := List.mem_map.mp (((List.mergeSort_perm _ _).trans hrows).mem_iff.mp hx)
        rfl
      cases hsorted : byPosition IndexRow.position rows with
      | nil => exact .primaryKey hcontent
      | cons first rest =>
          rw [hsorted] at horigin
          have hlisted : g.ListedAs ⟨g.table, g.index, "pk", first.unique, indexedColumns? (first :: rest)⟩ :=
            .primaryKey hcontent
          rw [← horigin first List.mem_cons_self] at hlisted
          exact hlisted
  | unique columns =>
      rw [hcontent] at hrows
      obtain ⟨first, rest, rfl⟩ := List.exists_cons_of_ne_nil ((fits_unique_iff hcontent).mp h).2.1
      have hsorted : byPosition IndexRow.position rows = (first :: rest).mapIdx (uniqueRow g.table g.index) :=
        byPosition_of_perm hrows (pairwise_mapIdx (by intro i x; rfl) _)
      have hindexed : indexedColumns? ((first :: rest).mapIdx (uniqueRow g.table g.index)) = some (first :: rest) :=
        indexedColumns?_eq_some_iff.mpr (map_mapIdx (by intro i x; rfl) _)
      rw [hsorted, IndexListing.ofRows, hindexed, List.mapIdx_cons]
      exact .unique hcontent
  | index columns =>
      rw [hcontent] at hrows
      obtain ⟨first, rest, rfl⟩ := List.exists_cons_of_ne_nil ((fits_index_iff hcontent).mp h).2.1
      have hsorted : byPosition IndexRow.position rows = (first :: rest).mapIdx (indexRow g.table g.index) :=
        byPosition_of_perm hrows (pairwise_mapIdx (by intro i x; rfl) _)
      have hindexed : indexedColumns? ((first :: rest).mapIdx (indexRow g.table g.index)) = some (first :: rest) :=
        indexedColumns?_eq_some_iff.mpr (map_mapIdx (by intro i x; rfl) _)
      rw [hsorted, IndexListing.ofRows, hindexed, List.mapIdx_cons]
      exact .index hcontent

namespace ListedAs

theorem warning? (h : g.ListedAs l) : l.warning? = none := by
  cases h <;> simp [IndexListing.warning?]

theorem unique? (h : g.ListedAs l) (name : String) :
    (if l.table = name then l.unique? else none) = g.unique? name := by
  cases h with
  | _ hcontent => simp [IndexListing.unique?, IndexGroup.unique?, hcontent]

theorem index? (h : g.ListedAs l) (hfits : g.Fits m) (name : String) :
    (if l.table = name then l.index?.map fun p => (l.index, p) else none) =
      (g.index? name).map fun e => (e.1, e.2, false) := by
  cases h with
  | primaryKey hcontent => simp [IndexListing.index?, IndexGroup.index?, hcontent]
  | unique hcontent => simp [IndexListing.index?, IndexGroup.index?, hcontent]
  | index hcontent =>
      obtain ⟨-, -, hmanual⟩ := (fits_index_iff hcontent).mp hfits
      simp [IndexListing.index?, IndexGroup.index?, hcontent, hmanual]

/-- Only the group of an index lists one. -/
theorem content_of_index? (h : g.ListedAs l) (hmade : l.index?.isSome = true) :
    l.index = g.index ∧ ∃ columns, g.content = .index columns := by
  cases h with
  | index hcontent => exact ⟨rfl, _, hcontent⟩
  | _ => simp [IndexListing.index?] at hmade

theorem not_repeats (h : g.ListedAs l) (hfits : g.Fits m) : ¬ l.Repeats := by
  rintro ⟨columns, hunique, hrepeats⟩
  cases h with
  | unique hcontent =>
      obtain ⟨-, -, hnodup⟩ := (fits_unique_iff hcontent).mp hfits
      obtain rfl := Option.some.inj hunique
      exact hrepeats hnodup
  | _ => simp [IndexListing.unique?] at hunique

theorem hasColumns (h : g.ListedAs l) (hfits : g.Fits m) (hkey : l.origin ≠ "pk") {columns : List String}
    (hcolumns : l.columns = some columns) : HasColumns m l.table columns := by
  cases h with
  | primaryKey => exact absurd rfl hkey
  | unique hcontent => exact Option.some.inj hcolumns ▸ ((fits_unique_iff hcontent).mp hfits).1
  | index hcontent => exact Option.some.inj hcolumns ▸ ((fits_index_iff hcontent).mp hfits).1

end ListedAs

end IndexGroup

/-! ## The groups of a report -/

variable {m : OrderedMap String TableShape} {keysOf : String → List KeyForm}

namespace Report

theorem mem_keysOf {g : KeyGroup} (hg : g ∈ r.keys) : g.key ∈ r.keysOf g.table :=
  List.mem_map_of_mem (List.mem_filter.mpr ⟨hg, by simp⟩)

theorem mem_uniquesOf {g : IndexGroup} (hg : g ∈ r.indexes) {columns : List String}
    (hcontent : g.content = .unique columns) : columns ∈ r.uniquesOf g.table := by
  refine List.mem_filterMap.mpr ⟨g, hg, ?_⟩
  simp [IndexGroup.unique?, hcontent]

theorem mem_indexesOf {g : IndexGroup} (hg : g ∈ r.indexes) {columns : List String}
    (hcontent : g.content = .index columns) : (g.index, columns) ∈ r.indexesOf g.table := by
  refine List.mem_filterMap.mpr ⟨g, hg, ?_⟩
  simp [IndexGroup.index?, hcontent]

/-- Every reported foreign key can be made on the bare tables. -/
theorem Lists.fits_keys (hr : r.Lists s) (hs : s.Sound) (hv : s.Verified)
    (hm : DrawsBare m s keysOf) : ∀ g ∈ r.keys, g.key.Fits m g.table := by
  intro g hg
  obtain ⟨t, ht⟩ := OrderedMap.contains_iff.mp (hr.keyTable g hg)
  obtain ⟨f, hf, hform⟩ := List.mem_map.mp ((hr.keys g.table t ht).mem_iff.mp (mem_keysOf hg))
  obtain ⟨-, htable⟩ := hs.table g.table t ht
  obtain ⟨-, hverified, hlocal, hlocalNodup⟩ := htable.foreignKey f hf
  obtain ⟨d, hd, hforeign, hforeignNodup⟩ := hs.target g.table t ht f hf
  have hlocalColumns := hm.hasColumns ht hlocal
  have hforeignColumns := hm.hasColumns hd hforeign
  have hne : f.targetName ≠ g.table := by
    intro hsame
    have htarget := hv.target g.table t ht f hf
    rw [hsame, ht, Option.map_some] at htarget
    obtain ⟨-, -, hown⟩ := hv.table g.table t ht
    exact hverified.target_ne ((Option.some.inj htarget).symm.trans (hown.foreignKey f hf).1.symm)
  have hsome : columnNames f.foreignColumns ≠ [] := fun hnil =>
    hverified.foreign_ne_nil (List.map_eq_nil_iff.mp hnil)
  have hlength : (columnNames f.foreignColumns).length = (columnNames f.localColumns).length := by
    unfold columnNames
    rw [List.length_map, List.length_map, hverified.length_eq]
  constructor <;> rw [← hform]
  · exact hlocalColumns
  · exact hforeignColumns
  · exact hne
  · exact hsome
  · exact hlength
  · exact hlocalNodup
  · exact hforeignNodup

/-- A constraint or an index is reported of a table that there is. -/
theorem Lists.table_of_ne_primaryKey (hr : r.Lists s) {g : IndexGroup} (hg : g ∈ r.indexes)
    (hkey : g.isPrimaryKey = false) : ∃ t, s.tables.get? g.table = some t := by
  rcases hr.indexTable g hg with hprimary | hcontains
  · rw [hprimary] at hkey
    cases hkey
  · exact OrderedMap.contains_iff.mp hcontains

/-- Every reported constraint and index can be made on the bare tables. -/
theorem Lists.fits_indexes (hr : r.Lists s) (hs : s.Sound) (hplain : s.Reportable)
    (hm : DrawsBare m s keysOf) : ∀ g ∈ r.indexes, g.Fits m := by
  intro g hg
  cases hcontent : g.content with
  | primaryKey parts =>
      unfold IndexGroup.Fits
      rw [hcontent]
      trivial
  | unique columns =>
      obtain ⟨t, ht⟩ := hr.table_of_ne_primaryKey hg (by simp [IndexGroup.isPrimaryKey, hcontent])
      obtain ⟨-, htable⟩ := hs.table g.table t ht
      obtain ⟨u, hu, rfl⟩ := List.mem_map.mp
        ((hr.uniques g.table t ht).mem_iff.mp (mem_uniquesOf hg hcontent))
      obtain ⟨hheld, hnodup⟩ := htable.unique u hu
      refine (IndexGroup.fits_unique_iff hcontent).mpr ⟨hm.hasColumns ht hheld, fun hnil => ?_, hnodup⟩
      exact hplain.uniqueColumns g.table t ht u hu (List.map_eq_nil_iff.mp hnil)
  | index columns =>
      obtain ⟨t, ht⟩ := hr.table_of_ne_primaryKey hg (by simp [IndexGroup.isPrimaryKey, hcontent])
      obtain ⟨-, htable⟩ := hs.table g.table t ht
      obtain ⟨e, he, hentry⟩ := List.mem_map.mp
        ((hr.indexes g.table t ht).mem_iff.mp (mem_indexesOf hg hcontent))
      obtain ⟨hname, rfl⟩ := Prod.mk.inj hentry
      have hi := OrderedMap.mem_entries_iff_get?.mp he
      obtain ⟨-, -, hheld⟩ := htable.index e.1 e.2 hi
      refine (IndexGroup.fits_index_iff hcontent).mpr ⟨hm.hasColumns ht hheld, fun hnil => ?_, ?_⟩
      · exact hplain.indexColumns g.table t ht e.2 (OrderedMap.mem_values_of_get? hi)
          (List.map_eq_nil_iff.mp hnil)
      · exact hname ▸ hplain.index g.table t ht e.1 (OrderedMap.mem_keys_iff.mpr ⟨e.2, hi⟩)

theorem Lists.mem_indexes (hr : r.Lists s) {g : IndexGroup} (hg : g ∈ r.indexes)
    (ht : s.tables.get? g.table = some t) {columns : List String} (hcontent : g.content = .index columns) :
    g.index ∈ t.indexes.keys := by
  have hmem := (hr.indexes g.table t ht).mem_iff.mp (mem_indexesOf hg hcontent)
  obtain ⟨e, he, hentry⟩ := List.mem_map.mp hmem
  rw [← (Prod.mk.inj hentry).1]
  exact List.mem_map_of_mem he

/-- No two groups report indexes of one name. -/
theorem Lists.pairwise_indexes (hr : r.Lists s) (hv : s.Verified) : r.indexes.Pairwise fun g h =>
    ∀ columns others, g.content = .index columns → h.content = .index others → g.index ≠ h.index := by
  rw [List.pairwise_iff_getElem]
  intro i j hi hj hij columns others hcontent hother hname
  have hgi := List.getElem_mem hi
  have hgj := List.getElem_mem hj
  obtain ⟨t, ht⟩ := hr.table_of_ne_primaryKey hgi (by simp [IndexGroup.isPrimaryKey, hcontent])
  obtain ⟨u, hu⟩ := hr.table_of_ne_primaryKey hgj (by simp [IndexGroup.isPrimaryKey, hother])
  have hright := hr.mem_indexes hgj hu hother
  rw [← hname] at hright
  have htable := hv.indexNames _ t _ u ht hu _ (hr.mem_indexes hgi ht hcontent)
    (OrderedMap.contains_iff_mem_keys.mpr hright)
  have hnodup : ((r.indexesOf r.indexes[i].table).map Prod.fst).Nodup := by
    rw [((hr.indexes _ t ht).map Prod.fst).nodup_iff, List.map_map]
    exact t.indexes.nodup
  have hpair := List.pairwise_iff_getElem.mp
    (List.pairwise_filterMap.mp (List.pairwise_map.mp hnodup)) i j hi hj hij
  exact hpair (r.indexes[i].index, columns) (by simp [IndexGroup.index?, hcontent])
    (r.indexes[j].index, others) (by simp [IndexGroup.index?, hother, htable]) hname

end Report

/-! ## The assembly -/

variable {a : Answers}

/-- The tables of a snapshot are read. -/
theorem isKept_of_contains (hplain : s.Reportable) (h : s.tables.contains name = true) :
    isKept none name = true := by
  unfold isKept
  rw [hplain.table _ (OrderedMap.contains_iff_mem_keys.mp h), Selection.isChosen_none]
  rfl

/-- The part of a report that is read: indexes of primary keys may be of tables that are left out. -/
def Report.kept (r : Report) : Report := { r with indexes := r.indexes.filter fun g => isKept none g.table }

/-- What is reported of the indexes of a table that is read stays. -/
theorem Report.filterMap_kept {β : Type} {f : IndexGroup → Option β} (hname : isKept none name = true)
    (hf : ∀ g, g.table ≠ name → f g = none) : r.kept.indexes.filterMap f = r.indexes.filterMap f := by
  unfold kept
  rw [List.filterMap_filter]
  apply List.filterMap_congr
  intro g _
  by_cases htable : g.table = name
  · rw [htable, if_pos hname]
  · rw [hf g htable, ite_self]

theorem Report.uniquesOf_kept (hname : isKept none name = true) : r.kept.uniquesOf name = r.uniquesOf name :=
  filterMap_kept hname fun g htable => by
    unfold IndexGroup.unique?
    cases g.content <;> simp [htable]

theorem Report.indexesOf_kept (hname : isKept none name = true) : r.kept.indexesOf name = r.indexesOf name :=
  filterMap_kept hname fun g htable => by
    unfold IndexGroup.index?
    cases g.content <;> simp [htable]

theorem Report.Lists.kept (hr : r.Lists s) (hplain : s.Reportable) : r.kept.Lists s where
  keys := hr.keys
  uniques := by
    intro name t ht
    rw [uniquesOf_kept (isKept_of_contains hplain (OrderedMap.contains_of_get? ht))]
    exact hr.uniques name t ht
  indexes := by
    intro name t ht
    rw [indexesOf_kept (isKept_of_contains hplain (OrderedMap.contains_of_get? ht))]
    exact hr.indexes name t ht
  keyTable := hr.keyTable
  indexTable := fun g hg => hr.indexTable g (List.mem_of_mem_filter hg)

/-- Rows of the tables of a snapshot are kept. -/
theorem filter_isKept (hplain : s.Reportable) {α : Type} {table : α → String} {rows : List α}
    (h : ∀ x ∈ rows, s.tables.contains (table x) = true) :
    (rows.filter fun x => isKept none (table x)) = rows :=
  List.filter_eq_self.mpr fun x hx => isKept_of_contains hplain (h x hx)

/-- The rows that are kept are those of the groups that are read. -/
theorem Answers.Report.kept (ha : a.Report s r) (hr : r.Lists s) (hs : s.Sound)
    (hplain : s.Reportable) : (a.keep none).Report s r.kept := by
  have hcolumns : (a.keep none).columns = a.columns := by
    refine filter_isKept hplain fun x hx => ?_
    rw [ha.columns] at hx
    obtain ⟨t, ht, hx⟩ := List.mem_flatMap.mp hx
    obtain ⟨name, ht⟩ := OrderedMap.mem_values_iff.mp ht
    obtain ⟨y, -, rfl⟩ := List.mem_map.mp hx
    show s.tables.contains t.name = true
    rw [(hs.table name t ht).1]
    exact OrderedMap.contains_of_get? ht
  have hkeys : (a.keep none).foreignKeys = a.foreignKeys := by
    refine filter_isKept hplain fun x hx => ?_
    obtain ⟨g, hg, hx⟩ := List.mem_flatMap.mp (ha.keys.mem_iff.mp hx)
    have htable : x.table = g.table := congrArg Prod.fst (KeyGroup.mem_rows hx).1
    rw [htable]
    exact hr.keyTable g hg
  have hindexes := ha.indexes.filter fun x => isKept none x.table
  rw [filter_flatMap_groups (fun g _ x hx => IndexGroup.name_of_mem_rows hx) fun k => isKept none k.1]
    at hindexes
  have horder := @groupKeys_filter _ _ _ (fun x : IndexRow => (x.table, x.index))
    (fun k => isKept none k.1) a.indexes
  rw [← ha.indexOrder, List.filter_map] at horder
  exact ⟨hcolumns.trans ha.columns, hkeys ▸ ha.keys, hkeys ▸ ha.keyOrder, hindexes, horder.symm⟩

/-! ### The passes -/

/-- On bare tables the rows of foreign keys come to the keys of the report. -/
theorem Answers.Report.moves_keys (ha : a.Report s r) (hr : r.Lists s) (hs : s.Sound) (hv : s.Verified)
    (hm : DrawsBare m s fun _ => []) :
    ∃ n, Moves KeyStep (keyGroups a.foreignKeys) ⟨m, []⟩ ⟨n, []⟩ ∧ DrawsBare n s r.keysOf := by
  have hfits := hr.fits_keys hs hv hm
  have hgroups : keyGroups a.foreignKeys = r.keys.map fun g => (g.name, g.rows) := by
    rw [keyGroups, orderedGroups, ← ha.keyOrder, List.map_map]
    apply List.map_congr_left
    intro g hg
    have hperm := filter_perm_rows ha.keyOrder ha.keys (fun g _ x hx => (KeyGroup.mem_rows hx).1) hg
    exact congrArg (g.name, ·) (byPosition_of_perm hperm (pairwise_mapIdx (by intro i p; rfl) _))
  have hmoves : Moves KeyStep (keyGroups a.foreignKeys) ⟨m, []⟩
      (Sketch.enterAll ⟨m, []⟩ (r.keys.map KeyGroup.outcome)) := by
    refine moves_keys_iff.mpr ⟨_, ?_, rfl⟩
    rw [hgroups, List.forall₂_map_left_iff, List.forall₂_map_right_iff, List.forall₂_same]
    intro g hg
    obtain ⟨sh, hsh, -⟩ := (hfits g hg).localColumns
    exact ⟨rfl, ⟨sh, hsh⟩, KeyGroup.keyResult (hfits g hg)⟩
  have hwarnings : (Sketch.enterAll ⟨m, []⟩ (r.keys.map KeyGroup.outcome)).warnings = [] := by
    rw [warnings_enterAll, List.filterMap_map]
    exact List.filterMap_eq_nil_iff.mpr fun _ _ => rfl
  have hkeys (table : String) : KeyOutcome.keysOn (r.keys.map KeyGroup.outcome) table = r.keysOf table := by
    rw [KeyOutcome.keysOn, List.filter_map, List.filterMap_map, Report.keysOf, ← List.filterMap_eq_map]
    rfl
  have hnames := keys_enterAll ⟨m, []⟩ (r.keys.map KeyGroup.outcome)
  have htables (name : String) := get?_enterAll ⟨m, []⟩ (r.keys.map KeyGroup.outcome) name
  generalize Sketch.enterAll ⟨m, []⟩ (r.keys.map KeyGroup.outcome) = l at hmoves hwarnings hnames htables
  obtain ⟨n, ws⟩ := l
  obtain rfl : ws = [] := hwarnings
  refine ⟨n, hmoves, hnames.trans hm.keys, fun name t ht => ?_⟩
  obtain ⟨sh, hsh, htells⟩ := hm.table name t ht
  refine ⟨sh.addForeignKeys (r.keysOf name), ?_,
    ⟨htells.columns, htells.slots, htells.uniques, ?_, htells.indexes⟩⟩
  · rw [htables, hkeys, hsh, Option.map_some]
  · show sh.foreignKeys ++ r.keysOf name = r.keysOf name
    rw [htells.foreignKeys, List.nil_append]

/-- The index that the rows of a group list among the answers. -/
def IndexGroup.listing (a : Answers) (g : IndexGroup) : IndexListing :=
  .ofRows g.table g.index (byPosition IndexRow.position (a.indexes.filter fun x => (x.table, x.index) = g.name))

/-- The rows of indexes list the groups of the report. -/
theorem Answers.Report.listings (ha : a.Report s r) : listings a.indexes = r.indexes.map (IndexGroup.listing a) := by
  rw [Rows.listings, orderedGroups, ← ha.indexOrder, List.map_map, List.map_map]
  rfl

/-- On bare tables the rows of indexes are entered as the report has them. -/
theorem Answers.Report.moves_indexes (ha : a.Report s r) (hr : r.Lists s) (hv : s.Verified)
    (hfits : ∀ g ∈ r.indexes, g.Fits m)
    (hbare : ∀ name sh, m.get? name = some sh → sh.uniques = [] ∧ sh.indexes = .empty) :
    Moves IndexListing.Step (Rows.listings a.indexes) ⟨m, []⟩ ⟨entered m (Rows.listings a.indexes), []⟩ ∧
      (∀ name, uniquesOn (Rows.listings a.indexes) name = (r.uniquesOf name).eraseDups) ∧
      ∀ name, indexesOn (Rows.listings a.indexes) name =
        .ofList ((r.indexesOf name).map fun e => (e.1, e.2, false)) := by
  have hlisted : ∀ g ∈ r.indexes, g.ListedAs (g.listing a) := fun g hg => IndexGroup.listedAs_ofRows (hfits g hg)
    (filter_perm_rows ha.indexOrder ha.indexes (fun _ _ _ hx => IndexGroup.name_of_mem_rows hx) hg)
  rw [ha.listings]
  refine ⟨?_, fun name => ?_, fun name => ?_⟩
  · have hapart : (r.indexes.map (IndexGroup.listing a)).Pairwise IndexListing.Apart := by
      refine List.pairwise_map.mpr ((hr.pairwise_indexes hv).imp_of_mem ?_)
      intro g h hg hh hne hmade hmade'
      obtain ⟨hname, columns, hcontent⟩ := (hlisted g hg).content_of_index? hmade
      obtain ⟨hname', others, hcontent'⟩ := (hlisted h hh).content_of_index? hmade'
      rw [hname, hname']
      exact hne columns others hcontent hcontent'
    have hwarnings : (r.indexes.map (IndexGroup.listing a)).filterMap IndexListing.warning? = [] := by
      rw [List.filterMap_map]
      exact List.filterMap_eq_nil_iff.mpr fun g hg => (hlisted g hg).warning?
    have hstart := @moves_listings_iff m (r.indexes.map (IndexGroup.listing a)) [] []
      ⟨entered m (r.indexes.map (IndexGroup.listing a)), []⟩
    rw [entered_nil hbare, List.nil_append, hwarnings] at hstart
    refine (hstart ?_ hapart fun h hh => absurd hh List.not_mem_nil).mpr ⟨?_, rfl⟩
    · exact List.forall_mem_map.mpr fun g hg hkey columns => (hlisted g hg).hasColumns (hfits g hg) hkey
    · exact List.forall_mem_map.mpr fun g hg => (hlisted g hg).not_repeats (hfits g hg)
  · rw [uniquesOn, List.filter_map, List.filterMap_map, List.filterMap_filter, Report.uniquesOf]
    refine congrArg _ (List.filterMap_congr fun g hg => ?_)
    simpa using (hlisted g hg).unique? name
  · rw [indexesOn, List.filter_map, List.filterMap_map, List.filterMap_filter, Report.indexesOf, List.map_filterMap]
    refine congrArg _ (List.filterMap_congr fun g hg => ?_)
    simpa using (hlisted g hg).index? (hfits g hg) name

/-- From a snapshot without tables the passes draw the tables of a report. -/
theorem passes_report (h : s.Reachable) (hv : s.verify = .ok ()) (hplain : s.Reportable)
    (hr : r.Lists s) (ha : a.Report s r) :
    ∃ m, Passes a ⟨.empty, []⟩ ⟨m, []⟩ ∧ m.keys = s.tables.keys ∧
      ∀ name t, s.tables.get? name = some t → ∃ sh, m.get? name = some sh ∧
        sh.Tells t (r.uniquesOf name) (r.keysOf name) (r.indexesOf name) := by
  have hs := h.sound hv
  have hverified := Snapshot.verify_eq_ok_iff.mp hv
  obtain ⟨m, hcolumns, hm⟩ := h.moves_columnRows hv hplain.columns
  obtain ⟨n, hkeys, hn⟩ := ha.moves_keys hr hs hverified hm
  obtain ⟨hindexes, huniques, hnames⟩ := ha.moves_indexes hr hverified (hr.fits_indexes hs hplain hn) hn.bare
  refine ⟨_, ⟨_, _, ha.columns ▸ hcolumns, hkeys, hindexes⟩, (keys_entered _ _).trans hn.keys, fun name t ht => ?_⟩
  obtain ⟨sh, hsh, htells⟩ := hn.table name t ht
  refine ⟨enteredOn (listings a.indexes) name sh, by rw [get?_entered, hsh, Option.map_some],
    ⟨htells.columns, htells.slots, ?_, htells.foreignKeys, ?_⟩⟩
  · show uniquesOn (listings a.indexes) name = _
    rw [huniques, OrderedMap.eraseDups_of_nodup ((hr.uniques name t ht).nodup_iff.mpr (h.nodup_uniques hv ht))]
  · have hnodup : (((r.indexesOf name).map fun e => (e.1, e.2, false)).map Prod.fst).Nodup := by
      rw [List.map_map]
      show ((r.indexesOf name).map Prod.fst).Nodup
      rw [((hr.indexes name t ht).map Prod.fst).nodup_iff, List.map_map]
      exact t.indexes.nodup
    show (indexesOn (listings a.indexes) name).entries = _
    rw [hnames, OrderedMap.entries_ofList hnodup]

/-- A snapshot is read back if its tables have the reported shapes. -/
theorem readFrom_of_shape (hkeys : found.shape.keys = s.tables.keys)
    (hshape : ∀ name t, s.tables.get? name = some t →
      ∃ sh, found.shape.get? name = some sh ∧
        sh.Tells t (r.uniquesOf name) (r.keysOf name) (r.indexesOf name)) : found.ReadFrom s r := by
  have hnames : found.tables.keys = s.tables.keys := by
    rw [← hkeys, Snapshot.shape, OrderedMap.keys_map]
  have hreported : ∀ name t, found.tables.get? name = some t →
      ∃ u, s.tables.get? name = some u ∧
        t.shape.Tells u (r.uniquesOf name) (r.keysOf name) (r.indexesOf name) := by
    intro name t ht
    obtain ⟨u, hu⟩ := OrderedMap.mem_keys_iff.mp (hnames ▸ OrderedMap.mem_keys_iff.mpr ⟨t, ht⟩)
    obtain ⟨sh, hsh, hreport⟩ := hshape name u hu
    rw [Snapshot.shape, OrderedMap.get?_map, ht, Option.map_some] at hsh
    exact ⟨u, hu, Option.some.inj hsh ▸ hreport⟩
  refine ⟨hnames, fun name t u ht hu => ?_, fun name t u ht hu slot => ?_, fun name t ht => ?_,
    fun name t ht => ?_, fun name t ht => ?_⟩
  · obtain ⟨u', hu', hreport⟩ := hreported name t ht
    rw [hu] at hu'
    cases hu'
    exact hreport.columns
  · obtain ⟨u', hu', hreport⟩ := hreported name t ht
    rw [hu] at hu'
    cases hu'
    rw [← hreport.slots slot]
    exact (OrderedMap.get?_map _ _ _).symm
  · obtain ⟨u, -, hreport⟩ := hreported name t ht
    exact hreport.uniques
  · obtain ⟨u, -, hreport⟩ := hreported name t ht
    exact hreport.foreignKeys
  · obtain ⟨u, -, hreport⟩ := hreported name t ht
    exact hreport.indexes

def Assembly.outcome {α : Type} (a : Assembly α) (d : Draft) : Except EditError α × Draft := (ExceptT.run a).run d

/-- **Rows read back**: from the rows of a report an assembly makes the reported snapshot again, without
an error and without a warning. -/
theorem outcome_assemble (h : s.Reachable) (hv : s.verify = .ok ()) (hplain : s.Reportable)
    (hr : r.Lists s) (ha : a.Report s r) :
    ∃ c id, (assemble none a).outcome ⟨.empty, []⟩ = (.ok id, ⟨c, []⟩) ∧ c.WellFormed ∧
      (c.snapshot id).ReadFrom s r := by
  obtain ⟨m, hpasses, hkeys, hm⟩ := passes_report h hv hplain (hr.kept hplain) (ha.kept hr (h.sound hv) hplain)
  obtain ⟨id, ⟨c, ws⟩, hrun, hdraws, rfl⟩ := (tracks_assemble none a).allows _ _ _ ⟨rfl, rfl⟩ hpasses
  refine ⟨c, id, hrun, hdraws.wellFormed, readFrom_of_shape (by rw [hdraws.shape, hkeys]) fun name t ht => ?_⟩
  obtain ⟨sh, hsh, htells⟩ := hm name t ht
  have hname := isKept_of_contains hplain (OrderedMap.contains_of_get? ht)
  rw [Report.uniquesOf_kept hname, Report.indexesOf_kept hname] at htells
  exact ⟨sh, hdraws.shape ▸ hsh, htells⟩

end Rows

/-! ## Nothing left to do -/

namespace Table

/-! What sameness up to order reads of a table goes by names. -/

theorem mem_keySet_iff {n : String} :
    n ∈ t.keySet ↔ ∃ slot, (t.slots.get? slot).map Column.name = some n := by
  unfold keySet
  rw [List.mem_toFinset, columnNames, (t.perm_primaryKey.map Column.name).mem_iff, List.mem_map]
  constructor
  · rintro ⟨x, hx, rfl⟩
    obtain ⟨slot, hslot⟩ := OrderedMap.mem_values_iff.mp hx
    exact ⟨slot, by rw [hslot, Option.map_some]⟩
  · rintro ⟨slot, hslot⟩
    obtain ⟨x, hx, hname⟩ := Option.map_eq_some_iff.mp hslot
    exact ⟨x, OrderedMap.mem_values_of_get? hx, hname⟩

theorem uniqueSets_eq (t : Table) :
    t.uniqueSets = ((t.uniques.map fun u => columnNames u.columns).map List.toFinset).toFinset := by
  rw [List.map_map]
  rfl

theorem references_eq (t : Table) :
    t.references = ((t.foreignKeys.map ForeignKey.form).map fun f => (⟨(f.localColumns.zip
      f.foreignColumns).toFinset, f.target, f.onUpdate, f.onDelete⟩ : ForeignKey.Reading)).toFinset := by
  rw [List.map_map]
  rfl

end Table

namespace Snapshot.ReadFrom

theorem table (h : found.ReadFrom s r) (ht : found.tables.get? name = some t) :
    ∃ u, s.tables.get? name = some u :=
  OrderedMap.mem_keys_iff.mp (h.names ▸ OrderedMap.mem_keys_iff.mpr ⟨t, ht⟩)

/-- No index that is read back is unique. -/
theorem uniqueIndexes_eq_nil (h : found.ReadFrom s r) : found.uniqueIndexes = [] := by
  rw [uniqueIndexes_eq_nil_iff]
  intro name t ht n i hi
  have hmem : (n, columnNames i.columns, i.unique) ∈ t.indexes.entries.map
      (fun e => (e.1, columnNames e.2.columns, e.2.unique)) :=
    List.mem_map.mpr ⟨(n, i), OrderedMap.mem_entries_iff_get?.mpr hi, rfl⟩
  rw [h.indexes name t ht] at hmem
  obtain ⟨e, -, he⟩ := List.mem_map.mp hmem
  exact (Prod.mk.inj (Prod.mk.inj he).2).2.symm

/-- The primary keys that are read back have no gaps. -/
theorem slotsFilled (h : found.ReadFrom s r) (hv : s.Verified) (ht : found.tables.get? name = some t) :
    t.SlotsFilled := by
  obtain ⟨u, hu⟩ := h.table ht
  obtain ⟨-, -, htable⟩ := hv.table name u hu
  obtain ⟨n, hn⟩ := (Table.verified_iff.mp htable).2
  refine ⟨n, fun slot => ?_⟩
  rw [← hn, ← OrderedMap.contains_iff_mem_keys, ← OrderedMap.contains_iff_mem_keys, OrderedMap.contains,
    OrderedMap.contains]
  have hslot := congrArg Option.isSome (h.slots name t u ht hu slot)
  rw [Option.isSome_map, Option.isSome_map] at hslot
  rw [hslot]

/-- A table that is read back differs in order only. -/
theorem sameUpToOrder_table (h : found.ReadFrom s r) (hr : r.Lists s)
    (ht : found.tables.get? name = some t) (hu : s.tables.get? name = some u) : t.SameUpToOrder u where
  columns := by
    intro column
    have hform := congrArg (fun n => (n.get? column).map fun f : ColumnForm =>
      (f.type, f.notNull, f.default)) (h.columns name t u ht hu)
    simp only [OrderedMap.get?_map, Option.map_map] at hform
    exact hform
  key := by
    ext n
    rw [Table.mem_keySet_iff, Table.mem_keySet_iff]
    simp only [h.slots name t u ht hu]
  uniques := by
    rw [Table.uniqueSets_eq, Table.uniqueSets_eq, h.uniques name t ht]
    exact List.toFinset_eq_of_perm _ _ ((hr.uniques name u hu).map _)
  foreignKeys := by
    rw [Table.references_eq, Table.references_eq, h.foreignKeys name t ht]
    exact List.toFinset_eq_of_perm _ _ ((hr.keys name u hu).map _)
  indexes := by
    intro n
    have hentries : t.indexes.entries.map (fun e => (e.1, columnNames e.2.columns)) =
        r.indexesOf name := by
      have hmap := congrArg (List.map fun e => (e.1, e.2.1)) (h.indexes name t ht)
      rw [List.map_map, List.map_map] at hmap
      exact hmap.trans (List.map_id _)
    ext columns
    rw [← OrderedMap.get?_map, ← OrderedMap.get?_map, ← OrderedMap.mem_entries_iff_get?,
      ← OrderedMap.mem_entries_iff_get?]
    show (n, columns) ∈ t.indexes.entries.map (fun e => (e.1, columnNames e.2.columns)) ↔
      (n, columns) ∈ u.indexes.entries.map fun e => (e.1, columnNames e.2.columns)
    rw [hentries, (hr.indexes name u hu).mem_iff]

theorem sameUpToOrder (h : found.ReadFrom s r) (hr : r.Lists s) : found.SameUpToOrder s where
  names := by
    intro name
    rw [Bool.eq_iff_iff, OrderedMap.contains_iff_mem_keys, OrderedMap.contains_iff_mem_keys, h.names]
  table := fun _ _ _ ht hu => h.sameUpToOrder_table hr ht hu

/-- Nothing is left to be done between a snapshot and what was read back from its report. -/
theorem diff_eq {c : Catalog} {id : SnapshotId} (hc : c.WellFormed) (h : (c.snapshot id).ReadFrom s r)
    (hr : r.Lists s) (hs : s.Reachable) (hv : s.verify = .ok ()) (hu : s.uniqueIndexes = [])
    (suffixes : Nat → String) :
    ∃ p, Snapshot.diff suffixes (c.snapshot id) s false = .ok p ∧ p.operations = [] := by
  have hverified := verify_eq_ok_iff.mp hv
  have hfound : (c.snapshot id).verify = .ok () :=
    (hc.snapshot_intact id).verify_eq_ok_iff.mpr fun _ _ ht => h.slotsFilled hverified ht
  have hfoundVerified := verify_eq_ok_iff.mp hfound
  have hplannable : Plannable (c.snapshot id) s false := ⟨by simp, hfound, hv, hu⟩
  refine ⟨_, hplannable.diff_eq suffixes, ?_⟩
  exact (h.sameUpToOrder hr).operations_eq_nil (hc.linked.snapshot_sound hfoundVerified) (hs.sound hv)
    hfoundVerified hverified h.uniqueIndexes_eq_nil hu suffixes

end Snapshot.ReadFrom
end SchemaSync
