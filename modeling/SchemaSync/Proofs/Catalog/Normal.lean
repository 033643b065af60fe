import SchemaSync.Proofs.Catalog.Parts
import SchemaSync.Proofs.Schema.Sound

/-!
# What edits never write twice

Two things hold of every catalog that edits reach although nothing verifies them. The default `NULL` is
never kept, since it counts as none; and a table has no two unique constraints over the same columns in
the same order. So a list of column names stands for at most one constraint of a table
(`Snapshot.Reachable.nodup_uniques`), and a default that is kept is the one that a database gives back.
-/

namespace SchemaSync
namespace Catalog

variable {c d : Catalog}

/-- No default is `NULL`, and no table has a unique constraint twice. -/
structure Normal (c : Catalog) : Prop where
  default : ∀ id, (c.columns.get id).default ≠ some "NULL"
  uniques : ∀ t, ((c.tables.get t).uniques.map fun u => (c.uniques.get u).columns).Nodup

theorem normal_empty : empty.Normal where
  default := by rintro id ⟨⟩
  uniques := fun _ => List.nodup_nil

theorem Mutation.default_ne (h : Mutation c d) (hc : ∀ id, (c.columns.get id).default ≠ some "NULL")
    (id : ColumnId) : (d.columns.get id).default ≠ some "NULL" := by
  cases h with
  | column entry ht hfree hdefault =>
      show ((c.columns.add entry).get id).default ≠ _
      rw [Store.get_add]
      split
      · exact hdefault
      · exact hc id
  | @columnName t x old new hold hfree =>
      have hsame : ((c.renameColumn t x old new).columns.get id).default = (c.columns.get id).default := by
        refine c.columns.field_update x ColumnEntry.default ?_ id
        intro e
        rfl
      rw [hsame]
      exact hc id
  | _ => exact hc id

/-- A mutation leaves the unique constraints of a table alone, or makes one over new columns. -/
theorem Mutation.nodup_uniques (h : Mutation c d) (ho : c.Owned) {t : TableId}
    (hc : ((c.tables.get t).uniques.map fun u => (c.uniques.get u).columns).Nodup) :
    ((d.tables.get t).uniques.map fun u => (d.uniques.get u).columns).Nodup := by
  have hkept : ((c.tables.get t).uniques.map fun u => (d.uniques.get u).columns) =
      (c.tables.get t).uniques.map fun u => (c.uniques.get u).columns := by
    apply List.map_congr_left
    intro u hu
    rw [(h.get_unique (ho.unique t u hu).1).2]
  rcases h.uniques t with heq | ⟨entry, rfl, rfl, heq, -, -, hnew⟩
  · rw [heq, hkept]
    exact hc
  · rw [heq, List.map_append, hkept, List.map_singleton]
    rw [get_addUnique_next]
    refine OrderedMap.nodup_append_singleton hc fun hmem => ?_
    obtain ⟨u, hu, hsame⟩ := List.mem_map.mp hmem
    exact hnew u hu hsame

theorem Mutation.normal (h : Mutation c d) (ho : c.Owned) (hn : c.Normal) : d.Normal where
  default := h.default_ne hn.default
  uniques := fun t => h.nodup_uniques ho (hn.uniques t)

theorem Mutations.normal (h : Mutations c d) (ho : c.Owned) (hn : c.Normal) : d.Normal := by
  induction h with
  | refl => exact hn
  | tail hrun hstep ih => exact hstep.normal (Mutations.owned hrun ho) ih

/-- A reachable catalog comes from the empty one by mutations. -/
theorem Reachable.mutations (h : c.Reachable) : Mutations .empty c := by
  induction h with
  | empty => exact .refl
  | edit h hk ih => exact ih.trans (Edit.Command.mutations_outcome h.linked hk)

theorem Reachable.normal (h : c.Reachable) : c.Normal :=
  Mutations.normal h.mutations owned_empty normal_empty

end Catalog

/-! ## Tables of reachable snapshots -/

namespace Snapshot

variable {s : Snapshot} {name : String} {t : Table}

/-- The columns of a table are those of one catalog, each known by its identity. -/
theorem Reachable.eq_column (h : s.Reachable) (ht : s.tables.get? name = some t) :
    ∃ c : Catalog, c.Reachable ∧ ∀ x ∈ t.columns.values, x = c.column x.id := by
  obtain ⟨c, hc, id, -, rfl⟩ := h
  rw [Catalog.get?_tables_snapshot] at ht
  obtain ⟨u, -, rfl⟩ := Option.map_eq_some_iff.mp ht
  refine ⟨c, hc, fun x hx => ?_⟩
  have hvalues : (c.table u).columns.values = (c.tables.get u).columns.values.map c.column :=
    OrderedMap.values_map _ _
  rw [hvalues] at hx
  obtain ⟨a, -, rfl⟩ := List.mem_map.mp hx
  rfl

/-- A table of a reachable snapshot has one column of an identity. -/
theorem Reachable.column_eq (h : s.Reachable) (ht : s.tables.get? name = some t) {x y : Column}
    (hx : x ∈ t.columns.values) (hy : y ∈ t.columns.values) (hid : x.id = y.id) : x = y := by
  obtain ⟨c, -, hcolumn⟩ := h.eq_column ht
  rw [hcolumn x hx, hcolumn y hy, hid]

theorem Reachable.default_ne (h : s.Reachable) (ht : s.tables.get? name = some t) {x : Column}
    (hx : x ∈ t.columns.values) : x.default ≠ some "NULL" := by
  obtain ⟨c, hc, hcolumn⟩ := h.eq_column ht
  rw [hcolumn x hx]
  exact hc.normal.default x.id

/-- Columns that a table holds are known by their names. -/
theorem eq_of_columnNames {xs ys : List Column} (hx : ∀ x ∈ xs, t.Holds x) (hy : ∀ y ∈ ys, t.Holds y)
    (h : columnNames xs = columnNames ys) : xs = ys := by
  induction xs generalizing ys with
  | nil => exact (List.map_eq_nil_iff.mp h.symm).symm
  | cons x xs ih =>
      cases ys with
      | nil => cases h
      | cons y ys =>
          obtain ⟨hname, hrest⟩ := List.cons.inj h
          obtain ⟨hxheld, hxs⟩ := List.forall_mem_cons.mp hx
          obtain ⟨hyheld, hys⟩ := List.forall_mem_cons.mp hy
          have hsame : some x = some y := by
            rw [← hxheld, ← hyheld, hname]
          rw [Option.some.inj hsame, ih hxs hys hrest]

/-- No two unique constraints of a table are over the same names in the same order. -/
theorem Reachable.nodup_uniques (h : s.Reachable) (hv : s.verify = .ok ())
    (ht : s.tables.get? name = some t) : (t.uniques.map fun u => columnNames u.columns).Nodup := by
  have hsound := ((h.sound hv).table name t ht).2
  have hids : (t.uniques.map fun u => u.columns.map Column.id).Nodup := by
    obtain ⟨c, hc, id, -, rfl⟩ := h
    rw [Catalog.get?_tables_snapshot] at ht
    obtain ⟨v, -, rfl⟩ := Option.map_eq_some_iff.mp ht
    show (((c.tables.get v).uniques.map c.unique).map _).Nodup
    rw [List.map_map]
    have hcolumns : ((fun u : Unique => u.columns.map Column.id) ∘ c.unique) =
        fun u => (c.uniques.get u).columns := funext fun u => Catalog.map_id_resolved _
    rw [hcolumns]
    exact hc.normal.uniques v
  refine List.Nodup.map_on ?_ hids.of_map
  intro u hu w hw hnames
  have hsame := eq_of_columnNames (hsound.unique u hu).1 (hsound.unique w hw).1 hnames
  exact List.inj_on_of_nodup_map hids hu hw (by rw [hsame])

end Snapshot
end SchemaSync
