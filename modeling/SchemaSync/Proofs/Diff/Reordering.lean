import SchemaSync.Proofs.Catalog.Shape
import SchemaSync.Proofs.Diff.Outcome
import SchemaSync.Proofs.Rows.Groups

/-!
# A diff does not look at the order of tables

What the classification asks of a desired table can be read off its shape, and it asks for tables by name.
So two desired snapshots with tables of the same shapes are classified in the same way, whatever the order in
which their tables stand (`Snapshot.SameTables.changes_eq`). The only list that is made along the desired
tables and kept apart by table is that of the indexes to be added: there the indexes of one table stay
together, in their own order.
-/

namespace SchemaSync

/-! ## What shapes determine -/

namespace Table

variable {t d e : Table}

theorem columnNames_primaryKey (t : Table) : columnNames t.primaryKey = t.shape.slots.inOrder :=
  (OrderedMap.inOrder_map Column.name t.slots).symm

theorem canonicalPrimaryKey_congr (h : d.shape = e.shape) :
    d.canonicalPrimaryKey = e.canonicalPrimaryKey := by
  unfold canonicalPrimaryKey canonicalColumns
  rw [columnNames_primaryKey, columnNames_primaryKey, h]

theorem canonicalUniques_congr (h : d.shape = e.shape) : d.canonicalUniques = e.canonicalUniques := by
  have hforms : ∀ t : Table, t.uniques.map Unique.canonical =
      t.shape.uniques.map fun names => ",".intercalate (sortTexts (names.map Text.Percent.encode)) := by
    intro t
    rw [shape, List.map_map]
    rfl
  unfold canonicalUniques
  rw [hforms, hforms, h]

theorem canonicalForeignKeys_congr (h : d.shape = e.shape) :
    d.canonicalForeignKeys = e.canonicalForeignKeys := by
  have hforms : ∀ t : Table, t.foreignKeys.map ForeignKey.canonical =
      t.shape.foreignKeys.map fun key =>
        ",".intercalate (sortTexts (key.localColumns.map Text.Percent.encode)) ++ " -> " ++
          ",".intercalate (sortTexts (key.foreignColumns.map Text.Percent.encode)) ++ " on " ++
            key.target ++ " | " ++ key.onDelete.keyword ++ " | " ++ key.onUpdate.keyword := by
    intro t
    rw [shape, List.map_map]
    rfl
  unfold canonicalForeignKeys
  rw [hforms, hforms, h]

theorem keys_columns_shape (t : Table) : t.shape.columns.keys = t.columns.keys := OrderedMap.keys_map _ _

/-- The columns that two tables of one shape have under one name are defined in the same way. -/
theorem get?_columns_congr (hd : d.Sound) (he : e.Sound) (h : d.shape = e.shape) {name : String} {x : Column}
    (hx : d.columns.get? name = some x) : ∃ y, e.columns.get? name = some y ∧ y.name = x.name ∧
      y.form = x.form := by
  have hname := congrArg (fun sh => sh.columns.get? name) h
  simp only [shape, OrderedMap.get?_map, hx, Option.map_some] at hname
  obtain ⟨y, hy, hform⟩ := Option.map_eq_some_iff.mp hname.symm
  exact ⟨y, hy, (he.column name y hy).trans (hd.column name x hx).symm, hform⟩

theorem contains_columns_congr (h : d.shape = e.shape) (name : String) :
    d.columns.contains name = e.columns.contains name := by
  have hkeys : ∀ t : Table, t.columns.contains name = t.shape.columns.contains name := by
    intro t
    rw [shape, OrderedMap.contains, OrderedMap.contains, OrderedMap.get?_map, Option.isSome_map]
  rw [hkeys, hkeys, h]

theorem editReasons_congr (hd : d.Sound) (he : e.Sound) (h : d.shape = e.shape) (t : Table) :
    t.editReasons d = t.editReasons e := by
  unfold editReasons
  apply List.flatMap_congr
  intro c _
  cases hx : d.columns.get? c.name with
  | none =>
      have hnone : e.columns.get? c.name = none := by
        rw [← OrderedMap.contains_eq_false_iff, ← contains_columns_congr h,
          OrderedMap.contains_eq_false_iff, hx]
      rw [hnone]
  | some x =>
      obtain ⟨y, hy, hname, hform⟩ := get?_columns_congr hd he h hx
      obtain ⟨htype, hnotNull, hdefault, -⟩ := ColumnForm.mk.inj hform
      rw [hy]
      show (if c.sameDefinition x = true then [] else columnReasons t.name c x) =
        if c.sameDefinition y = true then [] else columnReasons t.name c y
      unfold Column.sameDefinition columnReasons
      rw [hname, htype, hnotNull, hdefault]

/-- The reasons for a rebuild depend on the shape of the desired table alone. -/
theorem rebuildReasons_congr (hd : d.Sound) (he : e.Sound) (h : d.shape = e.shape) (t : Table) :
    t.rebuildReasons d = t.rebuildReasons e := by
  have hkeys : d.columns.keys = e.columns.keys := by
    rw [← keys_columns_shape, h, keys_columns_shape]
  unfold rebuildReasons structuralReasons
  rw [editReasons_congr hd he h, hkeys, canonicalPrimaryKey_congr h, canonicalUniques_congr h,
    canonicalForeignKeys_congr h]

end Table

namespace Snapshot

variable {current d e : Snapshot} {name : String}

theorem removedColumns_congr {t x y : Table} (h : x.shape = y.shape) :
    removedColumns t x = removedColumns t y := by
  unfold removedColumns
  simp only [Table.contains_columns_congr h]

/-! ## Tables by name -/

/-- Under each name the two snapshots have tables of one shape, or none. -/
def SameTables (d e : Snapshot) : Prop := ∀ name, d.shape.get? name = e.shape.get? name

namespace SameTables

theorem symm (h : d.SameTables e) : e.SameTables d := fun name => (h name).symm

theorem get?_tables (h : d.SameTables e) {t : Table} (ht : d.tables.get? name = some t) :
    ∃ u, e.tables.get? name = some u ∧ t.shape = u.shape := by
  have hname := h name
  rw [shape, shape, OrderedMap.get?_map, OrderedMap.get?_map, ht, Option.map_some] at hname
  obtain ⟨u, hu, hsame⟩ := Option.map_eq_some_iff.mp hname.symm
  exact ⟨u, hu, hsame.symm⟩

theorem contains_tables (h : d.SameTables e) (name : String) :
    d.tables.contains name = e.tables.contains name := by
  have hcontains : ∀ s : Snapshot, s.tables.contains name = (s.shape.get? name).isSome := by
    intro s
    rw [shape, OrderedMap.get?_map, Option.isSome_map]
    rfl
  rw [hcontains, hcontains, h name]

theorem get?_tables_eq_none (h : d.SameTables e) (hname : d.tables.get? name = none) :
    e.tables.get? name = none := by
  rw [← OrderedMap.contains_eq_false_iff, ← h.contains_tables, OrderedMap.contains_eq_false_iff, hname]

/-! ## Rebuilds -/

/-- The same tables are rebuilt, for the same reasons. -/
theorem map_rebuilds (h : d.SameTables e) (hd : d.Sound) (he : e.Sound) (current : Snapshot) :
    (rebuilds current d).map (fun r => (r.current, r.reasons)) =
      (rebuilds current e).map fun r => (r.current, r.reasons) := by
  unfold rebuilds
  rw [OrderedMap.map_filterMap, OrderedMap.map_filterMap]
  apply OrderedMap.filterMap_congr
  intro name t _
  cases hx : d.tables.get? name with
  | none =>
      rw [h.get?_tables_eq_none hx]
  | some x =>
      obtain ⟨y, hy, hshape⟩ := h.get?_tables hx
      rw [hy, Option.bind_some, Option.bind_some,
        Table.rebuildReasons_congr (hd.table name x hx).2 (he.table name y hy).2 hshape]
      dsimp only
      split <;> rfl

theorem map_reasons_rebuilds (h : d.SameTables e) (hd : d.Sound) (he : e.Sound) (current : Snapshot)
    (name : String) : ((rebuilds current d).get? name).map Rebuild.reasons =
      ((rebuilds current e).get? name).map Rebuild.reasons := by
  have hmap := congrArg (fun m => (m.get? name).map Prod.snd) (h.map_rebuilds hd he current)
  simpa [OrderedMap.get?_map, Function.comp_def] using hmap

/-! ## Indexes -/

/-- What is seen of an index: where it stands, and what it is made of. -/
theorem indexChanged_congr {c i j : Index} (hname : i.name = j.name) (hform : i.form = j.form) :
    indexChanged c i = indexChanged c j := by
  obtain ⟨howner, hcolumns, hunique⟩ := IndexForm.mk.inj hform
  unfold indexChanged Index.sameShape
  rw [hname, howner, hcolumns, hunique]

theorem get?_indexesByName (h : d.SameTables e) (hd : d.Sound) (he : e.Sound) (hdv : d.Verified)
    (hev : e.Verified) {n : String} {i : Index} (hi : d.indexesByName.get? n = some i) :
    ∃ j, e.indexesByName.get? n = some j ∧ i.name = j.name ∧ i.form = j.form := by
  obtain ⟨name, t, ht, hti⟩ := hdv.get?_indexesByName.mp hi
  obtain ⟨u, hu, hshape⟩ := h.get?_tables ht
  have hindex := congrArg (fun sh => sh.indexes.get? n) hshape
  simp only [Table.shape, OrderedMap.get?_map, hti, Option.map_some] at hindex
  obtain ⟨j, huj, hsame⟩ := Option.map_eq_some_iff.mp hindex.symm
  obtain ⟨hcolumns, hunique⟩ := Prod.mk.inj hsame
  obtain ⟨htname, htsound⟩ := hd.table name t ht
  obtain ⟨huname, husound⟩ := he.table name u hu
  obtain ⟨hiname, hiowner, -⟩ := htsound.index n i hti
  obtain ⟨hjname, hjowner, -⟩ := husound.index n j huj
  refine ⟨j, hev.get?_indexesByName.mpr ⟨name, u, hu, huj⟩, hiname.trans hjname.symm, ?_⟩
  unfold Index.form
  rw [hiowner, hjowner, htname, huname, hcolumns, hunique]

/-- The same indexes are removed. -/
theorem indexesToRemove_eq (h : d.SameTables e) (hd : d.Sound) (he : e.Sound) (hdv : d.Verified)
    (hev : e.Verified) : indexesToRemove current d = indexesToRemove current e := by
  have hrebuilt : ∀ s : Snapshot, ((rebuilds current s).values.flatMap fun r => r.current.indexes.values) =
      ((rebuilds current s).map fun r => (r.current, r.reasons)).values.flatMap
        fun p => p.1.indexes.values := by
    intro s
    rw [OrderedMap.values_map, List.flatMap_map]
  unfold indexesToRemove
  dsimp only
  rw [hrebuilt, hrebuilt, h.map_rebuilds hd he]
  congr 2
  funext n i
  rw [h.contains_tables]
  -- What is wanted under a name looks the same on either side, so the same indexes pass the filter.
  cases hx : d.indexesByName.get? n with
  | some x =>
      obtain ⟨y, hy, hname, hform⟩ := h.get?_indexesByName hd he hdv hev hx
      rw [hy]
      exact congrArg (_ && ·) (indexChanged_congr hname hform)
  | none =>
      cases hy : e.indexesByName.get? n with
      | none => rfl
      | some y =>
          obtain ⟨x, hx', -⟩ := h.symm.get?_indexesByName he hd hev hdv hy
          rw [hx] at hx'
          cases hx'

end SameTables

/-! ## Indexes to be added, table by table -/

/-- Indexes that are entered last do not matter where they are filtered out. -/
theorem filter_values_withIndexes {p : Index → Bool} {more : List Index} (h : ∀ i ∈ more, p i = false)
    (known : OrderedMap String Index) :
    (withIndexes known more).values.filter p = known.values.filter p := by
  unfold withIndexes
  induction more generalizing known with
  | nil => rfl
  | cons i more ih =>
      obtain ⟨hi, hmore⟩ := List.forall_mem_cons.mp h
      rw [List.foldl_cons, ih hmore, OrderedMap.insertNew]
      split
      next => rfl
      next hfree =>
        rw [OrderedMap.values_insert_of_free (Bool.not_eq_true _ ▸ hfree), List.filter_append,
          List.filter_cons_of_neg (by simp [hi]), List.filter_nil, List.append_nil]

/-- The indexes by name are all indexes, table by table. -/
theorem Verified.entries_indexesByName (hd : d.Verified) :
    d.indexesByName.entries = d.allIndexes.map fun i => (i.name, i) := by
  apply OrderedMap.entries_ofList
  rw [List.map_map]
  exact hd.nodup_map_name_allIndexes

theorem Verified.values_filter_indexesByName (hd : d.Verified) (p : String → Index → Bool) :
    (d.indexesByName.filter p).values = d.allIndexes.filter fun i => p i.name i := by
  show (d.indexesByName.entries.filter fun x => p x.1 x.2).map Prod.snd = _
  rw [hd.entries_indexesByName, List.filter_map, List.map_map]
  exact List.map_id'' (fun _ => rfl) _

theorem Verified.nodup_map_name_tables (hd : d.Verified) : (d.tables.values.map Table.name).Nodup :=
  OrderedMap.nodup_map_values fun name t ht => (hd.table name t ht).2.1

/-- Among all indexes those of one table stand together, in their own order. -/
theorem filter_allIndexes (hs : d.Sound) (hd : d.Verified) {t : Table} (ht : d.tables.get? name = some t) :
    d.allIndexes.filter (fun i => i.ownerName = name) = t.indexes.values := by
  have howner : ∀ u ∈ d.tables.values, ∀ i ∈ u.indexes.values, i.ownerName = u.name := by
    intro u hu i hi
    obtain ⟨other, hu⟩ := OrderedMap.mem_values_iff.mp hu
    obtain ⟨n, hi⟩ := OrderedMap.mem_values_iff.mp hi
    exact ((hs.table other u hu).2.index n i hi).2.1
  have hown := Rows.filter_flatMap_rows hd.nodup_map_name_tables howner (OrderedMap.mem_values_of_get? ht)
  rwa [(hs.table name t ht).1] at hown

def newIndexNames (current : Snapshot) (name : String) (sh : TableShape) : List String :=
  (sh.indexes.filter fun n form => match current.indexesByName.get? n with
    | none => true
    | some c => c.ownerName != name || !(c.unique == form.2 && c.name == n &&
        columnNames c.columns == form.1)).keys

/-- Which indexes are added to a table that is not rebuilt can be seen from its shape. -/
theorem indexNamesOn_indexesToAdd (hs : d.Sound) (hd : d.Verified) {t : Table}
    (ht : d.tables.get? name = some t) (hkept : (rebuilds current d).get? name = none) :
    indexNamesOn name (indexesToAdd current d) = newIndexNames current name t.shape := by
  -- The indexes of rebuilt tables are entered behind the others, and none of them is on this table.
  have hmore : ∀ i ∈ (rebuilds current d).values.flatMap fun r => r.desired.indexes.values,
      (i.ownerName == name) = false := by
    intro i hi
    obtain ⟨-, hrebuilt⟩ := (mem_indexes_of_rebuilds hs hd Rebuild.desired
      (fun _ _ hr => get?_desired_of_rebuild hr) i).mp hi
    rw [beq_eq_false_iff_ne]
    intro hname
    rw [hname, OrderedMap.contains, hkept] at hrebuilt
    cases hrebuilt
  have hown : ∀ p : Index → Bool, (d.allIndexes.filter p).filter (fun i => i.ownerName == name) =
      t.indexes.values.filter p := by
    intro p
    rw [List.filter_comm, ← filter_allIndexes hs hd ht]
    congr 1
  have hindex : ∀ x ∈ t.indexes.entries, x.2.name = x.1 ∧ x.2.ownerName = name := by
    rintro ⟨n, i⟩ hx
    obtain ⟨hname, hsound⟩ := hs.table name t ht
    obtain ⟨hkey, howner, -⟩ := hsound.index n i (OrderedMap.mem_entries_iff_get?.mp hx)
    exact ⟨hkey, howner.trans hname⟩
  unfold indexNamesOn indexesToAdd
  dsimp only
  rw [filter_values_withIndexes hmore, hd.values_filter_indexesByName, hown, newIndexNames, OrderedMap.keys,
    OrderedMap.values, List.filter_map, List.map_map]
  show _ = ((t.indexes.entries.map fun e => (e.1, _)).filter _).map Prod.fst
  rw [List.filter_map, List.map_map]
  refine (congrArg (List.map _) (List.filter_congr fun x hx => ?_)).trans
    (List.map_congr_left fun x hx => (hindex x (List.mem_of_mem_filter hx)).1)
  obtain ⟨hkey, howner⟩ := hindex x hx
  dsimp only [Function.comp_apply]
  rw [hkey]
  cases current.indexesByName.get? x.1 with
  | none => rfl
  | some c =>
      dsimp only
      unfold indexChanged Index.sameShape
      rw [hkey, howner]

/-! ## The classification -/

namespace SameTables

/-- Every table that stands in both snapshots is classified in the same way, for the same reasons. -/
theorem changes_eq (h : d.SameTables e) (hd : d.Sound) (he : e.Sound) (hdv : d.Verified)
    (hev : e.Verified) : changes current d = changes current e := by
  unfold changes
  dsimp only
  apply OrderedMap.filterMap_congr
  intro name t _
  cases hx : d.tables.get? name with
  | none =>
      rw [h.get?_tables_eq_none hx]
      rfl
  | some x =>
      obtain ⟨y, hy, hshape⟩ := h.get?_tables hx
      have hreasons := h.map_reasons_rebuilds hd he current name
      rw [hy, Option.map_some, Option.map_some]
      cases hr : (rebuilds current d).get? name with
      | some r =>
          rw [hr, Option.map_some] at hreasons
          obtain ⟨q, hq, hsame⟩ := Option.map_eq_some_iff.mp hreasons.symm
          rw [hq]
          dsimp only
          rw [hsame]
      | none =>
          rw [hr, Option.map_none, eq_comm, Option.map_eq_none_iff] at hreasons
          rw [hreasons, h.indexesToRemove_eq hd he hdv hev, removedColumns_congr hshape,
            indexNamesOn_indexesToAdd hd hdv hx hr, indexNamesOn_indexesToAdd he hev hy hreasons, hshape]

/-- The same tables are new, in whatever order. -/
theorem perm_tablesWithout (h : d.SameTables e) (hdv : d.Verified) (hev : e.Verified) :
    ((d.tablesWithout current).map Table.name).Perm ((e.tablesWithout current).map Table.name) := by
  rw [List.perm_ext_iff_of_nodup (hdv.nodup_tablesWithout current) (hev.nodup_tablesWithout current)]
  have himp : ∀ {x y : Snapshot}, x.SameTables y → x.Verified → y.Verified → ∀ name,
      name ∈ (x.tablesWithout current).map Table.name → name ∈ (y.tablesWithout current).map Table.name := by
    intro x y hxy hxv hyv name hname
    obtain ⟨t, ht, rfl⟩ := List.mem_map.mp hname
    obtain ⟨htable, hnew⟩ := hxv.mem_tablesWithout_iff.mp ht
    obtain ⟨u, hu, -⟩ := hxy.get?_tables htable
    have hname := (hyv.table t.name u hu).2.1
    rw [← hname] at hu hnew ⊢
    exact List.mem_map_of_mem (hyv.mem_tablesWithout_iff.mpr ⟨hu, hnew⟩)
  intro name
  exact ⟨himp h hdv hev name, himp h.symm hev hdv name⟩

theorem tablesWithout_eq (h : d.SameTables e) : current.tablesWithout d = current.tablesWithout e := by
  unfold tablesWithout
  simp only [h.contains_tables]

end SameTables

/-- Two plans that classify every table in the same way, for the same reasons; new tables may be listed in
another order. -/
structure ClassifyAlike (p q : Plan) : Prop where
  changes : p.changes = q.changes
  added : p.summary.addedTables.Perm q.summary.addedTables
  removed : p.summary.removedTables = q.summary.removedTables

/-- Two answers of a diff that are the same error, or plans that classify every table in the same way. -/
def AnswerAlike : Except PlanError Plan → Except PlanError Plan → Prop
  | .ok p, .ok q => ClassifyAlike p q
  | .error x, .error y => x = y
  | _, _ => False

/-- A diff to either of two sound and verified snapshots with the same tables, none with a unique index, gives
the same answer but for the order of tables. -/
theorem SameTables.diff_alike (h : d.SameTables e) (hd : d.Sound) (he : e.Sound) (hdv : d.verify = .ok ())
    (hev : e.verify = .ok ()) (hdu : d.uniqueIndexes = []) (heu : e.uniqueIndexes = [])
    (suffixes : Nat → String) (current : Snapshot) (creationMode : Bool) :
    AnswerAlike (diff suffixes current d creationMode) (diff suffixes current e creationMode) := by
  by_cases hallows : current.Allows creationMode
  · rw [hallows.diff_eq, hallows.diff_eq, hdv, hev, hdu, heu]
    cases current.verify with
    | error v => rfl
    | ok u =>
        have hdv' := verify_eq_ok_iff.mp hdv
        have hev' := verify_eq_ok_iff.mp hev
        refine ⟨h.changes_eq hd he hdv' hev', h.perm_tablesWithout hdv' hev', ?_⟩
        show (current.tablesWithout d).map Table.name = (current.tablesWithout e).map Table.name
        rw [h.tablesWithout_eq]
  · rw [diff_eq_of_not_allows hallows, diff_eq_of_not_allows hallows]
    rfl

end Snapshot
end SchemaSync
