import SchemaSync.Proofs.Diff.Planning
import SchemaSync.Proofs.Schema.Canonical

/-!
# The fixed point

Two snapshots that differ only in the order of their parts need no plan: every test of the
classification stays silent, so no list of operations gets a member. Which differences count as order
is said by `Table.SameUpToOrder` in terms of look-ups and of the sets of `Schema.Canonical`, without
reference to any test. Auto-increment flags are left out as well.
-/

namespace SchemaSync

/-- Two tables with the same columns, keys, constraints and indexes, each whatever its order. -/
structure Table.SameUpToOrder (t d : Table) : Prop where
  columns : ∀ name,
    (t.columns.get? name).map Column.definition = (d.columns.get? name).map Column.definition
  key : t.keySet = d.keySet
  uniques : t.uniqueSets = d.uniqueSets
  foreignKeys : t.references = d.references
  indexes : ∀ name, (t.indexes.get? name).map (fun i => columnNames i.columns) =
    (d.indexes.get? name).map fun i => columnNames i.columns

/-- Two snapshots with the same tables, whatever their order and that of their parts. -/
structure Snapshot.SameUpToOrder (s d : Snapshot) : Prop where
  names : ∀ name, s.tables.contains name = d.tables.contains name
  table : ∀ name t u, s.tables.get? name = some t → d.tables.get? name = some u →
    t.SameUpToOrder u

/-! ## Deciding sameness -/

def Table.isSameUpToOrder (t d : Table) : Bool :=
  (t.columns.keys ++ d.columns.keys).all (fun name =>
      (t.columns.get? name).map Column.definition == (d.columns.get? name).map Column.definition) &&
    decide (t.keySet = d.keySet) && decide (t.uniqueSets = d.uniqueSets) &&
    decide (t.references = d.references) &&
    (t.indexes.keys ++ d.indexes.keys).all fun name =>
      (t.indexes.get? name).map (fun i => columnNames i.columns) ==
        (d.indexes.get? name).map fun i => columnNames i.columns

theorem Table.isSameUpToOrder_iff {t d : Table} :
    t.isSameUpToOrder d = true ↔ t.SameUpToOrder d := by
  simp only [isSameUpToOrder, Bool.and_eq_true, List.all_eq_true, beq_iff_eq, decide_eq_true_eq,
    ← OrderedMap.forall_map_get?_eq_iff]
  constructor
  · intro h
    rcases h with ⟨⟨⟨⟨hcolumns, hkey⟩, huniques⟩, hforeign⟩, hindexes⟩
    exact ⟨hcolumns, hkey, huniques, hforeign, hindexes⟩
  · intro h
    exact ⟨⟨⟨⟨h.columns, h.key⟩, h.uniques⟩, h.foreignKeys⟩, h.indexes⟩

def Snapshot.isSameUpToOrder (s d : Snapshot) : Bool :=
  s.tables.keys.all d.tables.contains && d.tables.keys.all s.tables.contains &&
    s.tables.entries.all fun e => d.tables.entries.all fun f =>
      e.1 != f.1 || e.2.isSameUpToOrder f.2

theorem Snapshot.isSameUpToOrder_iff {s d : Snapshot} :
    s.isSameUpToOrder d = true ↔ s.SameUpToOrder d := by
  simp only [isSameUpToOrder, Bool.and_eq_true, List.all_eq_true, Bool.or_eq_true, bne_iff_ne,
    Table.isSameUpToOrder_iff, ← OrderedMap.contains_iff_mem_keys, Prod.forall,
    OrderedMap.mem_entries_iff_get?]
  constructor
  · intro h
    rcases h with ⟨⟨hleft, hright⟩, htable⟩
    refine ⟨fun name => Bool.eq_iff_iff.mpr ⟨hleft name, hright name⟩, ?_⟩
    intro name t u ht hu
    exact (htable name t ht name u hu).resolve_left fun hne => hne rfl
  · intro h
    refine ⟨⟨fun name hs => h.names name ▸ hs, fun name hd => (h.names name).symm ▸ hd⟩, ?_⟩
    intro name t ht other u hu
    by_cases heq : name = other
    · subst heq
      exact Or.inr (h.table name t u ht hu)
    · exact Or.inl heq

/-! ## Symmetry -/

theorem Table.SameUpToOrder.symm {t d : Table} (h : t.SameUpToOrder d) : d.SameUpToOrder t where
  columns := fun name => (h.columns name).symm
  key := h.key.symm
  uniques := h.uniques.symm
  foreignKeys := h.foreignKeys.symm
  indexes := fun name => (h.indexes name).symm

theorem Snapshot.SameUpToOrder.symm {s d : Snapshot} (h : s.SameUpToOrder d) :
    d.SameUpToOrder s where
  names := fun name => (h.names name).symm
  table := fun name t u ht hu => (h.table name u t hu ht).symm

/-! ## Silent tests of two tables -/

namespace Table

variable {t d : Table}

/-- A column is found on the other side with the same definition. -/
theorem SameUpToOrder.get?_column (h : t.SameUpToOrder d) (ht : t.Sound) {c : Column}
    (hc : c ∈ t.columns.values) :
    ∃ x, d.columns.get? c.name = some x ∧ c.definition = x.definition := by
  obtain ⟨name, hname⟩ := OrderedMap.mem_values_iff.mp hc
  have hkey : c.name = name := ht.column name c hname
  have hsame := h.columns name
  rw [hname, Option.map_some] at hsame
  obtain ⟨x, hx, hdefinition⟩ := Option.map_eq_some_iff.mp hsame.symm
  exact ⟨x, hkey ▸ hx, hdefinition.symm⟩

theorem SameUpToOrder.contains_column (h : t.SameUpToOrder d) (name : String) :
    t.columns.contains name = d.columns.contains name := by
  have hsame := congrArg Option.isSome (h.columns name)
  simpa [OrderedMap.contains] using hsame

/-- Between tables that differ in order only, every test of the classification is silent. -/
theorem SameUpToOrder.agrees (h : t.SameUpToOrder d) (ht : t.Sound) (hd : d.Sound)
    (htf : ∀ f ∈ t.foreignKeys, f.Distinct) (hdf : ∀ f ∈ d.foreignKeys, f.Distinct)
    (hunique : ∀ n i, t.indexes.get? n = some i → i.unique = false) : t.Agrees d where
  columns := by
    intro c hc x hx
    obtain ⟨y, hy, hdefinition⟩ := h.get?_column ht hc
    rw [hx] at hy
    cases hy
    exact hdefinition
  contains := by
    intro name hname
    rw [h.contains_column]
    exact OrderedMap.contains_iff_mem_keys.mpr hname
  key := canonicalPrimaryKey_eq_of_keySet_eq ht hd h.key
  uniques := by rw [canonicalUniques_eq_iff ht hd, h.uniques]
  foreignKeys := canonicalForeignKeys_eq_of_references_eq htf hdf h.foreignKeys
  indexes := hunique

theorem SameUpToOrder.removedColumns_eq_nil (h : t.SameUpToOrder d) (ht : t.Sound) :
    Snapshot.removedColumns t d = [] := by
  unfold Snapshot.removedColumns
  rw [List.filter_eq_nil_iff]
  intro c hc
  obtain ⟨x, hx, -⟩ := h.get?_column ht hc
  rw [OrderedMap.contains_of_get? hx]
  simp

end Table

/-- Tables that do not change leave nothing to report. -/
theorem Summary.ofChanges_unchanged {α : Type} (m : OrderedMap String α) :
    Summary.ofChanges [] [] (m.map fun _ => .unchanged) = ⟨[], [], [], [], [], .empty⟩ := by
  have hvalue : ∀ e ∈ (m.map fun _ => Change.unchanged).entries, e.2 = .unchanged := by
    intro e he
    obtain ⟨_, -, rfl⟩ := List.mem_map.mp he
    rfl
  unfold Summary.ofChanges
  rw [Summary.mk.injEq]
  refine ⟨rfl, rfl, ?_, ?_, ?_, ?_⟩
  · exact List.flatMap_eq_nil_iff.mpr fun e he => by rw [hvalue e he]
  · exact List.flatMap_eq_nil_iff.mpr fun e he => by rw [hvalue e he]
  · exact List.filterMap_eq_nil_iff.mpr fun e he => by rw [hvalue e he]
  · apply OrderedMap.eq_empty
    intro k
    rw [OrderedMap.get?_filterMap, OrderedMap.get?_map]
    cases m.get? k <;> rfl

/-! ## Silent tests of two snapshots -/

namespace Snapshot

theorem indexChanged_eq_false_iff {c d : Index} : indexChanged c d = false ↔
    c.ownerName = d.ownerName ∧ c.unique = d.unique ∧ c.name = d.name ∧
      columnNames c.columns = columnNames d.columns := by
  simp [indexChanged, Index.sameShape, and_assoc]

variable {s d : Snapshot}

/-- An index is found on the other side unchanged. -/
theorem SameUpToOrder.get?_indexesByName (h : s.SameUpToOrder d) (hs : s.Sound) (hd : d.Sound)
    (hsv : s.Verified) (hdv : d.Verified) (hsu : s.uniqueIndexes = []) (hdu : d.uniqueIndexes = [])
    {n : String} {i : Index} (hi : s.indexesByName.get? n = some i) :
    ∃ j, d.indexesByName.get? n = some j ∧ indexChanged i j = false := by
  obtain ⟨name, t, ht, hti⟩ := hsv.get?_indexesByName.mp hi
  have hcontains : d.tables.contains name = true := by
    rw [← h.names]
    exact OrderedMap.contains_of_get? ht
  obtain ⟨u, hu⟩ := OrderedMap.contains_iff.mp hcontains
  obtain ⟨htname, htsound⟩ := hs.table name t ht
  obtain ⟨huname, husound⟩ := hd.table name u hu
  have hcolumns := (h.table name t u ht hu).indexes n
  rw [hti, Option.map_some] at hcolumns
  obtain ⟨j, huj, hcolumns⟩ := Option.map_eq_some_iff.mp hcolumns.symm
  obtain ⟨hiname, hiowner, -⟩ := htsound.index n i hti
  obtain ⟨hjname, hjowner, -⟩ := husound.index n j huj
  have hiunique := uniqueIndexes_eq_nil_iff.mp hsu name t ht n i hti
  have hjunique := uniqueIndexes_eq_nil_iff.mp hdu name u hu n j huj
  refine ⟨j, hdv.get?_indexesByName.mpr ⟨name, u, hu, huj⟩, ?_⟩
  rw [indexChanged_eq_false_iff]
  exact ⟨by rw [hiowner, hjowner, htname, huname], by rw [hiunique, hjunique],
    by rw [hiname, hjname], hcolumns.symm⟩

/-! ## The plan -/

theorem tablesWithout_eq_nil (h : ∀ name, s.tables.contains name = d.tables.contains name) :
    s.tablesWithout d = [] := by
  unfold tablesWithout
  rw [List.eq_nil_iff_forall_not_mem]
  intro t ht
  obtain ⟨name, ht⟩ := OrderedMap.mem_values_iff.mp ht
  obtain ⟨hs, hd⟩ := get?_filter_without.mp ht
  have hcontains := h name
  rw [OrderedMap.contains_of_get? hs, OrderedMap.contains_eq_false_iff.mpr hd] at hcontains
  cases hcontains

section
variable {current desired : Snapshot} (h : current.SameUpToOrder desired) (hc : current.Sound)
  (hd : desired.Sound) (hcv : current.Verified) (hdv : desired.Verified)
  (hcu : current.uniqueIndexes = []) (hdu : desired.uniqueIndexes = [])
include h hc

theorem SameUpToOrder.columnDrops_eq_nil : columnDrops current desired = [] := by
  unfold columnDrops
  rw [List.flatMap_eq_nil_iff]
  rintro ⟨name, t⟩ he
  have ht := OrderedMap.mem_entries_iff_get?.mp he
  cases hu : desired.tables.get? name with
  | none => rfl
  | some u =>
      have hremoved := (h.table name t u ht hu).removedColumns_eq_nil (hc.table name t ht).2
      simp [hremoved]

include hd hcu

theorem SameUpToOrder.rebuilds_eq_empty : rebuilds current desired = .empty := by
  apply OrderedMap.eq_empty
  intro name
  rw [Option.eq_none_iff_forall_ne_some]
  intro r hr
  obtain ⟨t, u, ht, hu, hreasons, -⟩ := get?_rebuilds_eq_some_iff.mp hr
  have hagrees : t.Agrees u := (h.table name t u ht hu).agrees (hc.table name t ht).2
    (hd.table name u hu).2 (fun _ => hc.distinct ht) (fun _ => hd.distinct hu)
    (uniqueIndexes_eq_nil_iff.mp hcu name t ht)
  exact hreasons (Table.rebuildReasons_eq_nil_iff.mpr hagrees)

include hcv hdv hdu

theorem SameUpToOrder.indexesToRemove_eq_empty : indexesToRemove current desired = .empty := by
  apply OrderedMap.eq_empty
  intro n
  rw [Option.eq_none_iff_forall_ne_some]
  intro i hi
  obtain ⟨hi, ⟨-, hchanged⟩ | hrebuilt⟩ := (get?_indexesToRemove hc hcv).mp hi
  · obtain ⟨j, hj, hsame⟩ := h.get?_indexesByName hc hd hcv hdv hcu hdu hi
    rw [hchanged j hj] at hsame
    cases hsame
  · rw [h.rebuilds_eq_empty hc hd hcu] at hrebuilt
    cases hrebuilt

theorem SameUpToOrder.indexesToAdd_eq_empty : indexesToAdd current desired = .empty := by
  apply OrderedMap.eq_empty
  intro n
  rw [Option.eq_none_iff_forall_ne_some]
  intro i hi
  obtain ⟨hi, hchanged | hrebuilt⟩ := (get?_indexesToAdd hd hdv).mp hi
  · -- The index is found unchanged from either side.
    obtain ⟨j, hj, hsame⟩ := h.symm.get?_indexesByName hd hc hdv hcv hdu hcu hi
    obtain ⟨howner, hunique, hname, hcolumns⟩ := indexChanged_eq_false_iff.mp hsame
    have hback := indexChanged_eq_false_iff.mpr
      ⟨howner.symm, hunique.symm, hname.symm, hcolumns.symm⟩
    rw [hchanged j hj] at hback
    cases hback
  · rw [h.rebuilds_eq_empty hc hd hcu] at hrebuilt
    cases hrebuilt

theorem SameUpToOrder.operations_eq_nil (suffixes : Nat → String) :
    operations suffixes current desired false = [] := by
  have hrebuilds := h.rebuilds_eq_empty hc hd hcu
  have hremove := h.indexesToRemove_eq_empty hc hd hcv hdv hcu hdu
  have hadd := h.indexesToAdd_eq_empty hc hd hcv hdv hcu hdu
  have hcreated : desired.tablesWithout current = [] := tablesWithout_eq_nil h.symm.names
  have hdropped : current.tablesWithout desired = [] := tablesWithout_eq_nil h.names
  have haffected : affected current desired = [] := by
    unfold affected
    rw [hrebuilds]
    rfl
  have hcolumns := h.columnDrops_eq_nil hc
  have hreferences : referenceDrops current desired = [] := by
    simp [referenceDrops, haffected]
  have hattached : referenceAdditions current desired = [] := by
    simp [referenceAdditions, haffected, hcreated]
  have hrebuilt : tableRebuilds suffixes current desired = [] := by
    unfold tableRebuilds
    rw [hrebuilds]
    rfl
  unfold operations indexDrops tableCreations tableDrops indexCreations
  rw [hremove, hreferences, hcreated, hdropped, hcolumns, hrebuilt, hattached, hadd]
  rfl

theorem SameUpToOrder.changes_eq :
    changes current desired = current.tables.map fun _ => .unchanged := by
  have hrebuilds := h.rebuilds_eq_empty hc hd hcu
  have hremove := h.indexesToRemove_eq_empty hc hd hcv hdv hcu hdu
  have hadd := h.indexesToAdd_eq_empty hc hd hcv hdv hcu hdu
  unfold changes
  rw [hrebuilds, hremove, hadd]
  apply OrderedMap.filterMap_eq_map
  intro name t ht
  have hcontains : desired.tables.contains name = true := by
    rw [← h.names]
    exact OrderedMap.contains_of_get? ht
  obtain ⟨u, hu⟩ := OrderedMap.contains_iff.mp hcontains
  have hremoved := (h.table name t u ht hu).removedColumns_eq_nil (hc.table name t ht).2
  rw [hu, Option.map_some, hremoved]
  rfl

end

/-- **Fixed point up to order**: between two reachable snapshots that verify, hold no unique index and
differ in order only, the plan has no operation and an empty summary, and every table is unchanged. -/
theorem diff_of_sameUpToOrder (suffixes : Nat → String) {current desired : Snapshot}
    (hc : current.Reachable) (hd : desired.Reachable) (hcv : current.verify = .ok ())
    (hdv : desired.verify = .ok ()) (hcu : current.uniqueIndexes = [])
    (hdu : desired.uniqueIndexes = []) (h : current.SameUpToOrder desired) :
    ∃ p, diff suffixes current desired false = .ok p ∧ p.operations = [] ∧
      p.summary.isEmpty = true ∧ p.summary.recreateReasons = .empty ∧
      p.changes = current.tables.map fun _ => .unchanged := by
  have hplannable : Plannable current desired false := ⟨by simp, hcv, hdv, hdu⟩
  have hcs := hc.sound hcv
  have hds := hd.sound hdv
  have hcv' := verify_eq_ok_iff.mp hcv
  have hdv' := verify_eq_ok_iff.mp hdv
  have hchanges := h.changes_eq hcs hds hcv' hdv' hcu hdu
  have hcreated : desired.tablesWithout current = [] := tablesWithout_eq_nil h.symm.names
  have hdropped : current.tablesWithout desired = [] := tablesWithout_eq_nil h.names
  have hsummary : (plan suffixes current desired false).summary = ⟨[], [], [], [], [], .empty⟩ := by
    unfold plan
    rw [hcreated, hdropped, hchanges]
    exact Summary.ofChanges_unchanged _
  refine ⟨_, hplannable.diff_eq suffixes, ?_, ?_, ?_, hchanges⟩
  · exact h.operations_eq_nil hcs hds hcv' hdv' hcu hdu suffixes
  · rw [hsummary]
    rfl
  · rw [hsummary]

def integerColumn (name : String) (autoIncrement : Bool) : ColumnSpec :=
  ⟨name, "INTEGER", true, none, autoIncrement, false⟩

def ordered : List Edit.Command :=
  [.createSnapshot, .createTable ⟨0⟩ "users", .createTable ⟨0⟩ "posts",
    .createColumn ⟨0⟩ (integerColumn "a" true), .createColumn ⟨0⟩ (integerColumn "b" false),
    .createColumn ⟨1⟩ (integerColumn "u" false), .createColumn ⟨1⟩ (integerColumn "v" false),
    .setPrimaryKey ⟨0⟩ [.named "a", .named "b"], .createUnique ⟨0⟩ [.named "b"],
    .createUnique ⟨0⟩ [.named "a", .named "b"],
    .createIndex ⟨1⟩ "posts_u_v" [.named "u", .named "v"] false,
    .createForeignKey ⟨1⟩ ⟨.named "users", [.named "u", .named "v"], [.named "a", .named "b"],
      "CASCADE", "NO ACTION"⟩]

/-- The same tables made in another order, with constraints repeated in another order of columns. -/
def reordered : List Edit.Command :=
  [.createSnapshot, .createTable ⟨0⟩ "posts", .createTable ⟨0⟩ "users",
    .createColumn ⟨0⟩ (integerColumn "v" true), .createColumn ⟨0⟩ (integerColumn "u" false),
    .createColumn ⟨1⟩ (integerColumn "b" false), .createColumn ⟨1⟩ (integerColumn "a" false),
    .setPrimaryKey ⟨1⟩ [.named "b", .named "a"], .createUnique ⟨1⟩ [.named "a", .named "b"],
    .createUnique ⟨1⟩ [.named "b", .named "a"], .createUnique ⟨1⟩ [.named "b"],
    .createIndex ⟨0⟩ "posts_u_v" [.named "u", .named "v"] false,
    .createForeignKey ⟨0⟩ ⟨.named "users", [.named "v", .named "u"], [.named "b", .named "a"],
      "CASCADE", "NO ACTION"⟩]

theorem diff_ordered_reordered :
    (ofCommands ordered).SameUpToOrder (ofCommands reordered) ∧
      ∃ p, diff Nat.repr (ofCommands ordered) (ofCommands reordered) false = .ok p ∧
        p.operations = [] ∧ p.summary.isEmpty = true ∧ p.summary.recreateReasons = .empty ∧
        p.changes = (ofCommands ordered).tables.map fun _ => .unchanged := by
  have hsame : (ofCommands ordered).SameUpToOrder (ofCommands reordered) :=
    isSameUpToOrder_iff.mp (by cbv)
  refine ⟨hsame, diff_of_sameUpToOrder Nat.repr ?_ ?_ ?_ ?_ ?_ ?_ hsame⟩
  · exact reachable_ofCommands (by decide) (by decide)
  · exact reachable_ofCommands (by decide) (by decide)
  · cbv
  · cbv
  · cbv
  · cbv

end Snapshot
end SchemaSync
