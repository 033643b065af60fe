import SchemaSync.Diff.Planning
import SchemaSync.Proofs.Schema.Sound

/-!
# What a plan is made from

A plan is returned exactly for snapshots that are `Snapshot.Plannable`. It is made from a few finite
maps: the tables to rebuild, the change of every table that stays, and the indexes to remove and to
add. This module says what each of them holds under a name; the proofs about plans use these look-ups
and not the way in which the maps are built.
-/

namespace SchemaSync

/-! ## What a plan needs -/

namespace Snapshot

variable {current desired : Snapshot} {creationMode : Bool}

/-- Two snapshots for which there is a plan: both verify, the desired one holds no unique index, and
in creation mode the current one holds no table. -/
structure Plannable (current desired : Snapshot) (creationMode : Bool) : Prop where
  mode : creationMode = true → current.isEmpty = true
  verifiedCurrent : current.verify = .ok ()
  verifiedDesired : desired.verify = .ok ()
  noUnique : desired.uniqueIndexes = []

theorem mapError_eq_ok_iff {x : Except Violation Unit} :
    x.mapError PlanError.violation = .ok () ↔ x = .ok () := by
  cases x <;> simp [Except.mapError]

theorem checkPlannable_eq_ok_iff :
    checkPlannable current desired creationMode = .ok () ↔ Plannable current desired creationMode := by
  have hbind : ∀ (x y : Except PlanError Unit), (x >>= fun _ => y) = .ok () ↔
      x = .ok () ∧ y = .ok () := by
    intro x y
    cases x <;> simp [bind, Except.bind]
  unfold checkPlannable
  by_cases hmode : (creationMode && !current.isEmpty) = true
  · rw [if_pos hmode]
    constructor
    · intro h
      cases h
    · intro h
      rw [Bool.and_eq_true, Bool.not_eq_true'] at hmode
      rw [h.mode hmode.1] at hmode
      cases hmode.2
  · rw [if_neg hmode]
    have hempty : creationMode = true → current.isEmpty = true := by
      intro hcreation
      simpa [hcreation] using hmode
    simp only [hbind, mapError_eq_ok_iff, firstOf_eq_ok_iff]
    constructor
    · intro h
      rcases h with ⟨hc, hd, hu⟩
      exact ⟨hempty, hc, hd, hu⟩
    · intro h
      exact ⟨h.verifiedCurrent, h.verifiedDesired, h.noUnique⟩

theorem uniqueIndexes_eq_nil_iff {s : Snapshot} : s.uniqueIndexes = [] ↔
    ∀ name t, s.tables.get? name = some t → ∀ n i, t.indexes.get? n = some i → i.unique = false := by
  simp only [uniqueIndexes, List.flatMap_eq_nil_iff, List.map_eq_nil_iff, List.filter_eq_nil_iff,
    OrderedMap.mem_values_iff, Bool.not_eq_true]
  constructor
  · intro h name t ht n i hi
    exact h t ⟨name, ht⟩ i ⟨n, hi⟩
  · rintro h t ⟨name, ht⟩ i ⟨n, hi⟩
    exact h name t ht n i hi

/-! ## Tables of one snapshot only -/

theorem get?_filter_without {s other : Snapshot} {name : String} {t : Table} :
    (s.tables.filter fun name _ => !other.tables.contains name).get? name = some t ↔
      s.tables.get? name = some t ∧ other.tables.get? name = none := by
  rw [OrderedMap.get?_filter_eq_some_iff, Bool.not_eq_true', OrderedMap.contains_eq_false_iff]

theorem Verified.mem_tablesWithout_iff {s other : Snapshot} (h : s.Verified) {t : Table} :
    t ∈ s.tablesWithout other ↔ s.tables.get? t.name = some t ∧ other.tables.get? t.name = none := by
  unfold tablesWithout
  rw [OrderedMap.mem_values_iff]
  constructor
  · intro h
    rcases h with ⟨name, ht⟩
    rw [get?_filter_without] at ht
    rw [(h.table name t ht.1).2.1]
    exact ht
  · intro ht
    exact ⟨t.name, get?_filter_without.mpr ht⟩

theorem Verified.nodup_tablesWithout {s : Snapshot} (h : s.Verified) (other : Snapshot) :
    ((s.tablesWithout other).map Table.name).Nodup := by
  apply OrderedMap.nodup_map_values
  intro name t ht
  exact (h.table name t (get?_filter_without.mp ht).1).2.1

end Snapshot

/-! ## Reasons -/

/-- What two columns of one name are compared by. -/
def Column.definition (c : Column) : ColumnType × Bool × Option String :=
  (c.type, c.notNull, c.default)

namespace Table

/-- Two forms of a table between which the classification sees no reason for a rebuild. -/
structure Agrees (t d : Table) : Prop where
  columns : ∀ c ∈ t.columns.values, ∀ x, d.columns.get? c.name = some x →
    c.definition = x.definition
  contains : ∀ name ∈ d.columns.keys, t.columns.contains name = true
  key : t.canonicalPrimaryKey = d.canonicalPrimaryKey
  uniques : t.canonicalUniques = d.canonicalUniques
  foreignKeys : t.canonicalForeignKeys = d.canonicalForeignKeys
  indexes : ∀ n i, t.indexes.get? n = some i → i.unique = false

theorem columnReasons_eq_nil_iff {table : String} {c x : Column} :
    (if c.sameDefinition x = true then [] else columnReasons table c x) = [] ↔
      c.definition = x.definition := by
  have hreasons : columnReasons table c x = [] ↔ c.definition = x.definition := by
    simp only [columnReasons, List.append_eq_nil_iff, unless_eq_nil_iff, Column.definition,
      Prod.mk.injEq, and_assoc]
  by_cases hsame : c.sameDefinition x = true
  · rw [if_pos hsame]
    simp only [Column.sameDefinition, Bool.and_eq_true, beq_iff_eq] at hsame
    simp [Column.definition, hsame]
  · rw [if_neg hsame, hreasons]

theorem editReasons_eq_nil_iff {t d : Table} : t.editReasons d = [] ↔
    ∀ c ∈ t.columns.values, ∀ x, d.columns.get? c.name = some x → c.definition = x.definition := by
  unfold editReasons
  rw [List.flatMap_eq_nil_iff]
  apply forall₂_congr
  intro c _
  cases d.columns.get? c.name with
  | none => simp
  | some x =>
      show (if c.sameDefinition x = true then [] else columnReasons t.name c x) = [] ↔ _
      rw [columnReasons_eq_nil_iff]
      simp

theorem structuralReasons_eq_nil_iff {t d : Table} : t.structuralReasons d = [] ↔
    (∀ name ∈ d.columns.keys, t.columns.contains name = true) ∧
      t.canonicalPrimaryKey = d.canonicalPrimaryKey ∧ t.canonicalUniques = d.canonicalUniques ∧
      t.canonicalForeignKeys = d.canonicalForeignKeys ∧
      ∀ n i, t.indexes.get? n = some i → i.unique = false := by
  simp only [structuralReasons, List.append_eq_nil_iff, unless_eq_nil_iff, when_eq_nil_iff,
    List.all_eq_true, List.any_eq_true, OrderedMap.mem_values_iff, not_exists, not_and,
    Bool.not_eq_true, and_assoc, forall_exists_index]
  tauto

/-- There is no reason for a rebuild exactly between forms that agree. -/
theorem rebuildReasons_eq_nil_iff {t d : Table} : t.rebuildReasons d = [] ↔ t.Agrees d := by
  unfold rebuildReasons
  rw [List.append_eq_nil_iff, editReasons_eq_nil_iff, structuralReasons_eq_nil_iff]
  constructor
  · intro h
    rcases h with ⟨hcolumns, hcontains, hkey, huniques, hforeign, hindexes⟩
    exact ⟨hcolumns, hcontains, hkey, huniques, hforeign, hindexes⟩
  · intro h
    exact ⟨h.columns, h.contains, h.key, h.uniques, h.foreignKeys, h.indexes⟩

end Table

/-! ## Rebuilds -/

namespace Snapshot

variable {current desired : Snapshot}

theorem get?_rebuilds_eq_some_iff {name : String} {r : Rebuild} :
    (rebuilds current desired).get? name = some r ↔
      ∃ t d, current.tables.get? name = some t ∧ desired.tables.get? name = some d ∧
        t.rebuildReasons d ≠ [] ∧ r = ⟨t, d, t.rebuildReasons d⟩ := by
  unfold rebuilds
  rw [OrderedMap.get?_filterMap, Option.bind_eq_some_iff]
  constructor
  · intro h
    rcases h with ⟨t, ht, hr⟩
    obtain ⟨d, hd, hr⟩ := Option.bind_eq_some_iff.mp hr
    by_cases hreasons : t.rebuildReasons d = []
    · simp [hreasons] at hr
    · rw [if_neg (by simpa using hreasons)] at hr
      exact ⟨t, d, ht, hd, hreasons, (Option.some.inj hr).symm⟩
  · intro h
    rcases h with ⟨t, d, ht, hd, hreasons, rfl⟩
    refine ⟨t, ht, Option.bind_eq_some_iff.mpr ⟨d, hd, ?_⟩⟩
    rw [if_neg (by simpa using hreasons)]

/-- A table that stands in both snapshots is kept exactly if its forms agree. -/
theorem get?_rebuilds_eq_none_iff {name : String} {t d : Table}
    (ht : current.tables.get? name = some t) (hd : desired.tables.get? name = some d) :
    (rebuilds current desired).get? name = none ↔ t.Agrees d := by
  rw [Option.eq_none_iff_forall_ne_some, ← Table.rebuildReasons_eq_nil_iff]
  constructor
  · intro h
    by_contra hreasons
    exact h _ (get?_rebuilds_eq_some_iff.mpr ⟨t, d, ht, hd, hreasons, rfl⟩)
  · intro hreasons r hr
    obtain ⟨t', d', ht', hd', hne, -⟩ := get?_rebuilds_eq_some_iff.mp hr
    rw [ht] at ht'
    rw [hd] at hd'
    cases ht'
    cases hd'
    exact hne hreasons

theorem get?_current_of_rebuild {name : String} {r : Rebuild}
    (h : (rebuilds current desired).get? name = some r) :
    current.tables.get? name = some r.current := by
  obtain ⟨t, d, ht, -, -, rfl⟩ := get?_rebuilds_eq_some_iff.mp h
  exact ht

theorem get?_desired_of_rebuild {name : String} {r : Rebuild}
    (h : (rebuilds current desired).get? name = some r) :
    desired.tables.get? name = some r.desired := by
  obtain ⟨t, d, -, hd, -, rfl⟩ := get?_rebuilds_eq_some_iff.mp h
  exact hd

/-! ## The plan -/

/-- A table that is classified as rebuilt is found in both snapshots. -/
theorem requireTable_of_rebuild {name : String} {r : Rebuild}
    (h : (rebuilds current desired).get? name = some r) :
    current.requireTable name = .ok r.current ∧ desired.requireTable name = .ok r.desired := by
  unfold requireTable
  rw [get?_current_of_rebuild h, get?_desired_of_rebuild h]
  exact ⟨rfl, rfl⟩

theorem checkRebuilds_eq_ok (current desired : Snapshot) : checkRebuilds current desired = .ok () := by
  have hfound : ∀ names : List String,
      (∀ name ∈ names, ∃ r, (rebuilds current desired).get? name = some r) →
      (names.forM fun name => do
        discard (current.requireTable name)
        discard (desired.requireTable name) : Except PlanError Unit) = .ok () := by
    intro names hnames
    induction names with
    | nil => rfl
    | cons name names ih =>
      obtain ⟨⟨r, hr⟩, hrest⟩ := List.forall_mem_cons.mp hnames
      obtain ⟨hc, hd⟩ := requireTable_of_rebuild hr
      rw [List.forM_eq_forM, List.forM_cons, hc, hd]
      exact ih hrest
  exact hfound _ fun name hname => OrderedMap.mem_keys_iff.mp hname

/-- There is a plan exactly for plannable snapshots. -/
theorem diff_eq_ok_iff {suffixes : Nat → String} {p : Plan} :
    diff suffixes current desired creationMode = .ok p ↔
      Plannable current desired creationMode ∧ p = plan suffixes current desired creationMode := by
  rw [← checkPlannable_eq_ok_iff]
  unfold diff
  rw [checkRebuilds_eq_ok]
  cases hcheck : checkPlannable current desired creationMode with
  | error e => simp [bind, Except.bind]
  | ok u => simp [bind, Except.bind, pure, Except.pure, eq_comm]

theorem Plannable.diff_eq (h : Plannable current desired creationMode) (suffixes : Nat → String) :
    diff suffixes current desired creationMode =
      .ok (plan suffixes current desired creationMode) := diff_eq_ok_iff.mpr ⟨h, rfl⟩

/-! ## Changes -/

theorem get?_changes (name : String) : (changes current desired).get? name =
    (current.tables.get? name).bind fun t => (desired.tables.get? name).map fun d =>
      match (rebuilds current desired).get? name with
      | some r => .recreate r.reasons
      | none => .ofInPlace
          { addedColumns := []
            removedColumns := columnNames (removedColumns t d)
            addedIndexes := indexNamesOn name (indexesToAdd current desired)
            removedIndexes := indexNamesOn name (indexesToRemove current desired) } :=
  OrderedMap.get?_filterMap _ _ _

theorem ofInPlace_ne_recreate (edits : InPlace) (reasons : List Reason) :
    Change.ofInPlace edits ≠ .recreate reasons := by
  unfold Change.ofInPlace
  split <;> simp

/-- A table is classified as rebuilt exactly if it is, and for the same reasons. -/
theorem get?_changes_eq_recreate_iff {name : String} {reasons : List Reason} :
    (changes current desired).get? name = some (.recreate reasons) ↔
      ∃ r, (rebuilds current desired).get? name = some r ∧ r.reasons = reasons := by
  rw [get?_changes]
  constructor
  · intro h
    obtain ⟨t, -, h⟩ := Option.bind_eq_some_iff.mp h
    obtain ⟨d, -, h⟩ := Option.map_eq_some_iff.mp h
    cases hr : (rebuilds current desired).get? name with
    | none =>
        rw [hr] at h
        exact absurd h (ofInPlace_ne_recreate _ _)
    | some r =>
        rw [hr] at h
        exact ⟨r, rfl, Change.recreate.inj h⟩
  · intro h
    rcases h with ⟨r, hr, rfl⟩
    obtain ⟨t, d, ht, hd, -, -⟩ := get?_rebuilds_eq_some_iff.mp hr
    rw [ht, hd, hr]
    rfl

/-! ## Indexes by name -/

theorem get?_withIndexes_filter {all : OrderedMap String Index} {p : String → Index → Bool}
    {more : List Index} (hname : ∀ n i, all.get? n = some i → i.name = n)
    (hmore : ∀ i ∈ more, all.get? i.name = some i) {n : String} {i : Index} :
    (withIndexes (all.filter p) more).get? n = some i ↔
      all.get? n = some i ∧ (p n i = true ∨ i ∈ more) := by
  have hfold := OrderedMap.get?_foldl_insertNew Index.name (fun i : Index => i) n more (all.filter p)
  unfold withIndexes
  rw [hfold, Option.map_id', Option.or_eq_some_iff, OrderedMap.get?_filter_eq_some_iff]
  constructor
  · intro h
    rcases h with ⟨hi, hp⟩ | ⟨-, hfind⟩
    · exact ⟨hi, Or.inl hp⟩
    · have hmem := List.mem_of_find?_eq_some hfind
      have hfound := List.find?_some hfind
      have hkey : i.name = n := of_decide_eq_true hfound
      exact ⟨hkey ▸ hmore i hmem, Or.inr hmem⟩
  · intro h
    rcases h with ⟨hi, h⟩
    by_cases hp : p n i = true
    · exact Or.inl ⟨hi, hp⟩
    · have hmem : i ∈ more := h.resolve_left hp
      refine Or.inr ⟨?_, ?_⟩
      · rw [OrderedMap.get?_filter, hi]
        simp [Option.filter, hp]
      · -- Whatever is found under the name is the one index that `all` holds there.
        have hsome : (more.find? fun c => decide (c.name = n)).isSome = true :=
          List.find?_isSome.mpr ⟨i, hmem, decide_eq_true (hname n i hi)⟩
        obtain ⟨j, hj⟩ := Option.isSome_iff_exists.mp hsome
        have hfound := List.find?_some hj
        have hjn : j.name = n := of_decide_eq_true hfound
        have hjall := hmore j (List.mem_of_find?_eq_some hj)
        rw [hjn, hi] at hjall
        rw [hj, Option.some.inj hjall]

/-- The indexes of a table go by their keys. -/
theorem Verified.map_name_indexes {s : Snapshot} (h : s.Verified) {name : String} {t : Table}
    (ht : s.tables.get? name = some t) : t.indexes.values.map Index.name = t.indexes.keys :=
  OrderedMap.map_values_eq_keys fun n i hi => ((h.table name t ht).2.2.index n i hi).2.1

theorem Verified.nodup_map_name_allIndexes {s : Snapshot} (h : s.Verified) :
    (s.allIndexes.map Index.name).Nodup := by
  unfold allIndexes OrderedMap.values
  rw [List.map_flatMap, List.flatMap_map, List.nodup_flatMap]
  constructor
  · rintro ⟨name, t⟩ he
    rw [OrderedMap.mem_entries_iff_get?] at he
    have hkeys := h.map_name_indexes he
    show (t.indexes.values.map Index.name).Nodup
    rw [hkeys]
    exact t.indexes.nodup_keys
  · have hkeys : s.tables.entries.Pairwise fun d e => d.1 ≠ e.1 :=
      List.pairwise_map.mp s.tables.nodup
    refine hkeys.imp_of_mem ?_
    rintro ⟨a, t⟩ ⟨b, u⟩ ht hu hne n hn hn'
    rw [OrderedMap.mem_entries_iff_get?] at ht hu
    replace hn : n ∈ t.indexes.values.map Index.name := hn
    replace hn' : n ∈ u.indexes.values.map Index.name := hn'
    rw [h.map_name_indexes ht] at hn
    rw [h.map_name_indexes hu, ← OrderedMap.contains_iff_mem_keys] at hn'
    exact hne (h.indexNames a t b u ht hu n hn hn')

/-- An index is found under its name exactly if one of the tables holds it there. -/
theorem Verified.get?_indexesByName {s : Snapshot} (h : s.Verified) {n : String} {i : Index} :
    s.indexesByName.get? n = some i ↔
      ∃ name t, s.tables.get? name = some t ∧ t.indexes.get? n = some i := by
  have hnodup : ((s.allIndexes.map fun i => (i.name, i)).map Prod.fst).Nodup := by
    rw [List.map_map]
    exact h.nodup_map_name_allIndexes
  unfold indexesByName
  rw [OrderedMap.get?_ofList hnodup, List.mem_map]
  constructor
  · intro h
    rcases h with ⟨j, hj, heq⟩
    obtain ⟨t, ht, hmem⟩ := List.mem_flatMap.mp hj
    obtain ⟨name, ht⟩ := OrderedMap.mem_values_iff.mp ht
    obtain ⟨m, hm⟩ := OrderedMap.mem_values_iff.mp hmem
    obtain ⟨hname, rfl⟩ := Prod.mk.inj heq
    have hkey := ((h.table name t ht).2.2.index m j hm).2.1
    rw [← hname, hkey]
    exact ⟨name, t, ht, hm⟩
  · intro h
    rcases h with ⟨name, t, ht, hi⟩
    have hkey := ((h.table name t ht).2.2.index n i hi).2.1
    refine ⟨i, ?_, by rw [hkey]⟩
    exact List.mem_flatMap.mpr
      ⟨t, OrderedMap.mem_values_of_get? ht, OrderedMap.mem_values_of_get? hi⟩

theorem Verified.name_indexesByName {s : Snapshot} (h : s.Verified) {n : String} {i : Index}
    (hi : s.indexesByName.get? n = some i) : i.name = n := by
  obtain ⟨name, t, ht, hi⟩ := h.get?_indexesByName.mp hi
  exact ((h.table name t ht).2.2.index n i hi).2.1

/-- In a sound snapshot an index found under its name stands on the table that it names. -/
theorem Sound.owner_indexesByName {s : Snapshot} (hs : s.Sound) (h : s.Verified) {n : String}
    {i : Index} (hi : s.indexesByName.get? n = some i) :
    ∃ t, s.tables.get? i.ownerName = some t ∧ t.indexes.get? n = some i := by
  obtain ⟨name, t, ht, hi⟩ := h.get?_indexesByName.mp hi
  obtain ⟨hname, htable⟩ := hs.table name t ht
  obtain ⟨-, howner, -⟩ := htable.index n i hi
  rw [howner, hname]
  exact ⟨t, ht, hi⟩

/-! ## Indexes to remove and to add -/

theorem get?_rebuilds_of_new {name : String} (h : current.tables.get? name = none) :
    (rebuilds current desired).get? name = none := by
  rw [Option.eq_none_iff_forall_ne_some]
  intro r hr
  rw [get?_current_of_rebuild hr] at h
  cases h

theorem get?_rebuilds_of_gone {name : String} (h : desired.tables.get? name = none) :
    (rebuilds current desired).get? name = none := by
  rw [Option.eq_none_iff_forall_ne_some]
  intro r hr
  rw [get?_desired_of_rebuild hr] at h
  cases h

/-- The indexes that rebuilt tables have on one side are the indexes of that side that stand on a
rebuilt table. -/
theorem mem_indexes_of_rebuilds {s : Snapshot} (hs : s.Sound) (hv : s.Verified)
    (side : Rebuild → Table) (hside : ∀ name r, (rebuilds current desired).get? name = some r →
      s.tables.get? name = some (side r)) (i : Index) :
    i ∈ ((rebuilds current desired).values.flatMap fun r => (side r).indexes.values) ↔
      s.indexesByName.get? i.name = some i ∧
        (rebuilds current desired).contains i.ownerName = true := by
  rw [List.mem_flatMap]
  constructor
  · intro h
    rcases h with ⟨r, hr, hi⟩
    obtain ⟨name, hr⟩ := OrderedMap.mem_values_iff.mp hr
    obtain ⟨m, hm⟩ := OrderedMap.mem_values_iff.mp hi
    have ht := hside name r hr
    obtain ⟨hname, htable⟩ := hs.table name _ ht
    obtain ⟨hkey, howner, -⟩ := htable.index m i hm
    refine ⟨hv.get?_indexesByName.mpr ⟨name, side r, ht, hkey ▸ hm⟩, ?_⟩
    rw [howner, hname]
    exact OrderedMap.contains_of_get? hr
  · intro h
    rcases h with ⟨hi, hrebuilt⟩
    obtain ⟨r, hr⟩ := OrderedMap.contains_iff.mp hrebuilt
    obtain ⟨t, ht, hti⟩ := hs.owner_indexesByName hv hi
    rw [hside _ r hr] at ht
    cases ht
    exact ⟨r, OrderedMap.mem_values_of_get? hr, OrderedMap.mem_values_of_get? hti⟩

/-- An index is removed exactly if its table stays and it is gone or changed, or if its table is
rebuilt. -/
theorem get?_indexesToRemove (hs : current.Sound) (hc : current.Verified) {n : String} {i : Index} :
    (indexesToRemove current desired).get? n = some i ↔
      current.indexesByName.get? n = some i ∧
        ((desired.tables.contains i.ownerName = true ∧
            ∀ d, desired.indexesByName.get? n = some d → indexChanged i d = true) ∨
          (rebuilds current desired).contains i.ownerName = true) := by
  have hmore := mem_indexes_of_rebuilds hs hc Rebuild.current
    fun _ _ (h : (rebuilds current desired).get? _ = some _) => get?_current_of_rebuild h
  unfold indexesToRemove
  rw [get?_withIndexes_filter (fun n i => hc.name_indexesByName) fun i hi => ((hmore i).mp hi).1]
  refine and_congr_right fun hi => or_congr ?_ ?_
  · rw [Bool.and_eq_true]
    refine and_congr_right fun _ => ?_
    cases desired.indexesByName.get? n <;> simp
  · rw [hmore, hc.name_indexesByName hi]
    exact and_iff_right hi

/-- An index is added exactly if it is new or changed, or if its table is rebuilt. -/
theorem get?_indexesToAdd (hs : desired.Sound) (hd : desired.Verified) {n : String} {i : Index} :
    (indexesToAdd current desired).get? n = some i ↔
      desired.indexesByName.get? n = some i ∧
        ((∀ c, current.indexesByName.get? n = some c → indexChanged c i = true) ∨
          (rebuilds current desired).contains i.ownerName = true) := by
  have hmore := mem_indexes_of_rebuilds hs hd Rebuild.desired
    fun _ _ (h : (rebuilds current desired).get? _ = some _) => get?_desired_of_rebuild h
  unfold indexesToAdd
  rw [get?_withIndexes_filter (fun n i => hd.name_indexesByName) fun i hi => ((hmore i).mp hi).1]
  refine and_congr_right fun hi => or_congr ?_ ?_
  · cases current.indexesByName.get? n <;> simp
  · rw [hmore, hd.name_indexesByName hi]
    exact and_iff_right hi

end Snapshot
end SchemaSync
