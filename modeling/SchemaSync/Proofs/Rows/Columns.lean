import SchemaSync.Proofs.Catalog.Normal
import SchemaSync.Proofs.Rows.Report
import SchemaSync.Proofs.Rows.Sketch

/-!
# The column rows of a snapshot

Every column of a table is reported with its primary key slot, so the rows of a table in order tell its
columns in order and every slot: from them an assembly draws the table without its constraints
(`DrawsBare`). The number that a column reports as its slot is the slot that it fills, since no
two columns of a table share an identity: `Snapshot.Reachable.slotOf_eq_iff`.

A row goes through if its column and its slot are new to its table (`Rows.ColumnRow.Fits`). Rows of different
columns and slots do not get into each other's way, so on tables that are empty at first all of them do.
-/

namespace SchemaSync

theorem ColumnType.read_keyword (t : ColumnType) : ColumnType.read t.keyword = .known t := by
  cases t <;> decide

/-- The columns and key slots of a table, without columns that count up, with some constraints and some
indexes that are not unique. -/
structure TableShape.Tells (sh : TableShape) (t : Table) (uniques : List (List String))
    (keys : List KeyForm) (indexes : List (String × List String)) : Prop where
  columns : sh.columns = t.columns.map fun x => { x.form with autoIncrement := false }
  slots : ∀ slot, sh.slots.get? slot = (t.slots.get? slot).map Column.name
  uniques : sh.uniques = uniques
  foreignKeys : sh.foreignKeys = keys
  indexes : sh.indexes.entries = indexes.map fun e => (e.1, e.2, false)

/-- Every table of a snapshot is drawn, with the given foreign keys but without other constraints and
without indexes. -/
structure DrawsBare (m : OrderedMap String TableShape) (s : Snapshot) (keysOf : String → List KeyForm) :
    Prop where
  keys : m.keys = s.tables.keys
  table : ∀ name t, s.tables.get? name = some t →
    ∃ sh, m.get? name = some sh ∧ sh.Tells t [] (keysOf name) []

theorem DrawsBare.bare {m : OrderedMap String TableShape} {s : Snapshot} {keysOf : String → List KeyForm}
    (h : DrawsBare m s keysOf) : ∀ name sh, m.get? name = some sh → sh.uniques = [] ∧ sh.indexes = .empty := by
  intro name sh hsh
  obtain ⟨t, ht⟩ := OrderedMap.mem_keys_iff.mp (h.keys ▸ OrderedMap.mem_keys_iff.mpr ⟨sh, hsh⟩)
  obtain ⟨other, hother, htells⟩ := h.table name t ht
  obtain rfl := Option.some.inj (hother.symm.trans hsh)
  exact ⟨htells.uniques, OrderedMap.ext htells.indexes⟩

theorem DrawsBare.hasColumns {m : OrderedMap String TableShape} {s : Snapshot}
    {keysOf : String → List KeyForm} (h : DrawsBare m s keysOf) {name : String} {t : Table}
    (ht : s.tables.get? name = some t) {xs : List Column} (hxs : ∀ x ∈ xs, t.Holds x) :
    HasColumns m name (columnNames xs) := by
  obtain ⟨sh, hsh, htells⟩ := h.table name t ht
  refine ⟨sh, hsh, fun n hn => ?_⟩
  obtain ⟨x, hx, rfl⟩ := List.mem_map.mp hn
  have hheld : t.columns.get? x.name = some x := hxs x hx
  rw [htells.columns, OrderedMap.contains, OrderedMap.get?_map, hheld]
  rfl

/-! ## Rows that go through -/

namespace Rows.ColumnRow

open Catalog

variable {m : OrderedMap String TableShape} {sh : TableShape} {r q : ColumnRow} {rows : List ColumnRow}

/-- The column and its primary key slot are new to a table. -/
structure Fits (sh : TableShape) (r : ColumnRow) : Prop where
  free : sh.columns.get? r.column = none
  slot : 0 < r.slot → sh.slots.get? r.slot = none
  keyless : r.column ∉ sh.slots.values

/-- Two rows are of different columns and slots, unless they are of different tables. -/
def Apart (r q : ColumnRow) : Prop :=
  r.table = q.table → r.column ≠ q.column ∧ (0 < r.slot → r.slot ≠ q.slot)

theorem fits_empty (r : ColumnRow) : r.Fits .empty := ⟨rfl, fun _ => rfl, by rintro ⟨⟩⟩

theorem Fits.fitAll (h : r.Fits sh) (taken : String → Prop) : Stroke.FitAll taken sh r.strokes := by
  have htype : (ColumnType.ofKeyword? r.spec.type).isSome = true := by
    rw [spec, ColumnType.ofKeyword?_keyword, Option.isSome_some]
  refine ⟨⟨h.free, htype⟩, ?_⟩
  split
  next hpos => exact ⟨⟨hpos, OrderedMap.contains_insert_self _ _ _, h.slot hpos, h.keyless⟩, trivial⟩
  next => trivial

/-- A row does not get into the way of one that is apart from it. -/
theorem Fits.enter (hr : r.Fits ((m.get? r.table).getD .empty)) (hq : q.Fits ((m.get? q.table).getD .empty))
    (hapart : r.Apart q) : q.Fits (((m.enter .empty ColumnRow.table stroked r).get? q.table).getD .empty) := by
  rw [OrderedMap.enter, OrderedMap.get?_insert]
  by_cases htable : r.table = q.table
  · obtain ⟨hcolumn, hslot⟩ := hapart htable
    rw [if_pos htable, Option.getD_some, htable, stroked_eq]
    have hfree : ((((m.get? q.table).getD .empty).addColumn r.column r.form).columns).get? q.column =
        none := by
      rw [TableShape.addColumn, OrderedMap.get?_insert, if_neg hcolumn]
      exact hq.free
    by_cases hpos : 0 < r.slot
    · rw [if_pos hpos]
      refine ⟨hfree, fun hqpos => ?_, ?_⟩
      · show (((m.get? q.table).getD .empty).slots.insert r.slot r.column).get? q.slot = none
        rw [OrderedMap.get?_insert, if_neg (hslot hpos)]
        exact hq.slot hqpos
      · have hslotFree : ((m.get? q.table).getD .empty).slots.contains r.slot = false :=
          OrderedMap.contains_eq_false_iff.mpr (htable ▸ hr.slot hpos)
        show q.column ∉ (((m.get? q.table).getD .empty).slots.insert r.slot r.column).values
        rw [OrderedMap.values_insert_of_free hslotFree, List.mem_append, List.mem_singleton, not_or]
        exact ⟨hq.keyless, Ne.symm hcolumn⟩
    · rw [if_neg hpos]
      exact ⟨hfree, hq.slot, hq.keyless⟩
  · rw [if_neg htable]
    exact hq

/-- Rows of different columns and slots go through one after another. -/
theorem exists_moves {k : Sketch} (hapart : rows.Pairwise Apart)
    (hrows : ∀ r ∈ rows, r.Fits ((k.shape.get? r.table).getD .empty)) : ∃ l, Moves Step rows k l := by
  induction rows generalizing k with
  | nil => exact ⟨k, rfl⟩
  | cons r rows ih =>
      obtain ⟨hfirst, hrest⟩ := List.pairwise_cons.mp hapart
      obtain ⟨hr, hothers⟩ := List.forall_mem_cons.mp hrows
      obtain ⟨l, hl⟩ := @ih ⟨k.shape.enter .empty ColumnRow.table stroked r, k.warnings ++ r.warnings⟩ hrest
        fun q hq => hr.enter (hothers q hq) (hfirst q hq)
      exact ⟨l, _, ⟨hr.fitAll _, rfl⟩, hl⟩

/-- The rows of a table fill its columns and its slots, each in the order of the rows. -/
theorem foldl_stroked (rows : List ColumnRow) (sh : TableShape) : rows.foldl stroked sh =
    { sh with
      columns := (rows.map fun r => (r.column, r.form)).foldl (fun n e => n.insert e.1 e.2) sh.columns
      slots := ((rows.filter fun r => 0 < r.slot).map fun r => (r.slot, r.column)).foldl
        (fun n e => n.insert e.1 e.2) sh.slots } := by
  induction rows generalizing sh with
  | nil => rfl
  | cons r rows ih =>
      rw [List.foldl_cons, ih, stroked_eq]
      by_cases hslot : 0 < r.slot
      · simp [hslot, TableShape.addColumn, TableShape.fillSlot]
      · simp [hslot, TableShape.addColumn]

end Rows.ColumnRow

/-! ## Slots -/

/-- A key column fills one slot only. -/
theorem Table.Sound.entry_eq {t : Table} (h : t.Sound) {e f : Int × Column} (he : e ∈ t.slots.entries)
    (hf : f ∈ t.slots.entries) (hname : e.2.name = f.2.name) : e = f := by
  have hnames : (t.slots.entries.map fun e => e.2.name).Nodup := by
    have hnodup := h.keyNames
    unfold columnNames OrderedMap.values at hnodup
    rwa [List.map_map] at hnodup
  exact List.inj_on_of_nodup_map hnames he hf hname

namespace Snapshot

open Rows

variable {s : Snapshot} {name : String} {t : Table}

/-- A column reports the slot that it fills, if it fills one. -/
theorem Reachable.slotOf_eq_iff (h : s.Reachable) (hv : s.verify = .ok ())
    (ht : s.tables.get? name = some t) {x : Column} (hx : x ∈ t.columns.values) {slot : Int}
    (hslot : 0 < slot) : t.slotOf x.id = slot ↔ t.slots.get? slot = some x := by
  have hsound := ((h.sound hv).table name t ht).2
  -- A key column of this identity is this column.
  have hsame : ∀ e ∈ t.slots.entries, e.2.id = x.id → e.2 = x := by
    rintro ⟨k, y⟩ he hid
    have hget := OrderedMap.mem_entries_iff_get?.mp he
    have hheld : t.columns.get? y.name = some y :=
      hsound.keyHeld y (OrderedMap.mem_values_of_get? hget)
    exact h.column_eq ht (OrderedMap.mem_values_of_get? hheld) hx hid
  unfold Table.slotOf
  cases hfind : t.slots.entries.find? fun e => e.2.id == x.id with
  | none =>
      constructor
      · intro h0
        have hzero : (0 : Int) = slot := h0
        omega
      · intro hget
        have hmem := OrderedMap.mem_entries_iff_get?.mpr hget
        have hnot := List.find?_eq_none.mp hfind _ hmem
        simp at hnot
  | some e =>
      have hmem := List.mem_of_find?_eq_some hfind
      have hid : e.2.id = x.id := by simpa using List.find?_some hfind
      have hcolumn := hsame e hmem hid
      have hget : t.slots.get? e.1 = some x := hcolumn ▸ OrderedMap.mem_entries_iff_get?.mp hmem
      constructor
      · intro heq
        have hkey : e.1 = slot := heq
        rw [← hkey, hget]
      · intro hother
        have hentry : e = (slot, x) := hsound.entry_eq hmem
          (OrderedMap.mem_entries_iff_get?.mpr hother) (congrArg Column.name hcolumn)
        rw [hentry]
        rfl

/-- Filled slots are positive. -/
theorem Verified.slot_pos (hv : s.Verified) (ht : s.tables.get? name = some t) {slot : Int} {x : Column}
    (hx : t.slots.get? slot = some x) : 0 < slot := by
  obtain ⟨-, -, htable⟩ := hv.table name t ht
  obtain ⟨n, hn⟩ := (Table.verified_iff.mp htable).2
  have hrange := (hn slot).mp (OrderedMap.mem_keys_iff.mpr ⟨x, hx⟩)
  omega

/-! ## Rows -/

theorem Reachable.nodup_columnNames (h : s.Reachable) (hv : s.verify = .ok ())
    (ht : s.tables.get? name = some t) : (t.columns.values.map Column.name).Nodup :=
  OrderedMap.nodup_map_values ((h.sound hv).table name t ht).2.column

/-- The rows of a table are of different columns and slots. -/
theorem Reachable.pairwise_columnRow (h : s.Reachable) (hv : s.verify = .ok ())
    (ht : s.tables.get? name = some t) :
    (t.columns.values.map t.columnRow).Pairwise ColumnRow.Apart := by
  rw [List.pairwise_map]
  have hnames := List.pairwise_map.mp (h.nodup_columnNames hv ht)
  refine hnames.imp_of_mem fun {x y} hx hy hne _ => ⟨hne, fun hpos hslot => ?_⟩
  have hx' := (h.slotOf_eq_iff hv ht hx hpos).mp rfl
  have hy' := (h.slotOf_eq_iff hv ht hy hpos).mp (Eq.symm hslot)
  rw [hx'] at hy'
  exact hne (congrArg Column.name (Option.some.inj hy'))

theorem Reachable.pairwise_columnRows (h : s.Reachable) (hv : s.verify = .ok ()) :
    s.columnRows.Pairwise ColumnRow.Apart := by
  have hsound := h.sound hv
  unfold columnRows
  rw [List.pairwise_flatMap]
  constructor
  · intro t ht
    obtain ⟨name, ht⟩ := OrderedMap.mem_values_iff.mp ht
    exact h.pairwise_columnRow hv ht
  · have hkeys := List.pairwise_map.mp
      (OrderedMap.nodup_map_values fun name t ht => (hsound.table name t ht).1)
    refine hkeys.imp fun {t u} hne r hr q hq htable => ?_
    obtain ⟨x, -, rfl⟩ := List.mem_map.mp hr
    obtain ⟨y, -, rfl⟩ := List.mem_map.mp hq
    exact absurd htable hne

/-- The rows of a table tell its columns in order. -/
theorem Reachable.columns_columnRow (h : s.Reachable) (hv : s.verify = .ok ())
    (ht : s.tables.get? name = some t) :
    ((t.columns.values.map t.columnRow).map fun r => (r.column, r.form)) =
      (t.columns.map fun x => { x.form with autoIncrement := false }).entries := by
  have hsound := ((h.sound hv).table name t ht).2
  unfold OrderedMap.values
  rw [List.map_map, List.map_map]
  apply List.map_congr_left
  rintro ⟨key, x⟩ he
  have hname := hsound.column key x (OrderedMap.mem_entries_iff_get?.mp he)
  show (x.name, (t.columnRow x).form) = (key, { x.form with autoIncrement := false })
  have hdefault := h.default_ne ht (OrderedMap.mem_values_of_get? (OrderedMap.mem_entries_iff_get?.mp he))
  rw [hname]
  unfold ColumnRow.form ColumnRow.spec ColumnSpec.form Table.columnRow Column.form
  dsimp only
  rw [ColumnType.read_keyword, if_neg hdefault]
  cases x.notNull <;> rfl

/-- The rows of a table tell the columns of its slots. -/
theorem Reachable.slots_columnRow (h : s.Reachable) (hv : s.verify = .ok ())
    (ht : s.tables.get? name = some t) {slot : Int} {column : String} :
    (slot, column) ∈ (((t.columns.values.map t.columnRow).filter fun r => 0 < r.slot).map
      fun r => (r.slot, r.column)) ↔ ∃ x, t.slots.get? slot = some x ∧ x.name = column := by
  have hsound := ((h.sound hv).table name t ht).2
  simp only [List.mem_map, List.mem_filter, decide_eq_true_eq, Prod.mk.injEq]
  constructor
  · rintro ⟨r, ⟨⟨x, hx, rfl⟩, hpos⟩, hslot, hcolumn⟩
    exact ⟨x, (h.slotOf_eq_iff hv ht hx (hslot ▸ hpos)).mp hslot, hcolumn⟩
  · rintro ⟨x, hget, hcolumn⟩
    have hpos := (verify_eq_ok_iff.mp hv).slot_pos ht hget
    have hheld : t.columns.get? x.name = some x :=
      hsound.keyHeld x (OrderedMap.mem_values_of_get? hget)
    have hx := OrderedMap.mem_values_of_get? hheld
    have hslot := (h.slotOf_eq_iff hv ht hx hpos).mpr hget
    exact ⟨t.columnRow x, ⟨⟨x, hx, rfl⟩, by rw [← hslot] at hpos; exact hpos⟩, hslot, hcolumn⟩

/-- The rows of a table draw its columns and its primary key. -/
theorem Reachable.tells_foldl_stroked (h : s.Reachable) (hv : s.verify = .ok ())
    (ht : s.tables.get? name = some t) :
    ((t.columns.values.map t.columnRow).foldl ColumnRow.stroked .empty).Tells t [] [] [] := by
  rw [ColumnRow.foldl_stroked]
  refine ⟨?_, ?_, rfl, rfl, rfl⟩
  · show OrderedMap.ofList _ = _
    apply OrderedMap.ext
    rw [h.columns_columnRow hv ht]
    exact OrderedMap.entries_ofList (t.columns.map _).nodup
  · intro slot
    have hnodup : ((((t.columns.values.map t.columnRow).filter fun r => 0 < r.slot).map
        fun r => (r.slot, r.column)).map Prod.fst).Nodup := by
      rw [List.map_map, List.Nodup, List.pairwise_map]
      refine ((h.pairwise_columnRow hv ht).filter _).imp_of_mem fun {r q} hr hq hapart => ?_
      obtain ⟨hr, hpos⟩ := List.mem_filter.mp hr
      obtain ⟨x, -, rfl⟩ := List.mem_map.mp hr
      obtain ⟨y, -, rfl⟩ := List.mem_map.mp (List.mem_of_mem_filter hq)
      exact (hapart rfl).2 (of_decide_eq_true hpos)
    show (OrderedMap.ofList _).get? slot = _
    ext column
    rw [OrderedMap.get?_ofList hnodup, Option.map_eq_some_iff]
    exact h.slots_columnRow hv ht

theorem warnings_columnRows (s : Snapshot) : s.columnRows.flatMap ColumnRow.warnings = [] := by
  rw [List.flatMap_eq_nil_iff]
  intro r hr
  obtain ⟨t, -, hr⟩ := List.mem_flatMap.mp hr
  obtain ⟨x, -, rfl⟩ := List.mem_map.mp hr
  unfold ColumnRow.warnings Table.columnRow
  rw [ColumnType.read_keyword]

/-- **Columns read back**: the column rows of a snapshot whose tables have columns are entered without
a warning, and draw its tables in order with their columns and primary keys. -/
theorem Reachable.moves_columnRows (h : s.Reachable) (hv : s.verify = .ok ())
    (hne : ∀ name t, s.tables.get? name = some t → t.columns.entries ≠ []) :
    ∃ m, Moves ColumnRow.Step s.columnRows ⟨.empty, []⟩ ⟨m, []⟩ ∧ DrawsBare m s fun _ => [] := by
  have hsound := h.sound hv
  have hkeys : s.tables.values.map Table.name = s.tables.keys :=
    OrderedMap.map_values_eq_keys fun name t ht => (hsound.table name t ht).1
  have hnodup : (s.tables.values.map Table.name).Nodup := hkeys ▸ s.tables.nodup_keys
  have htable : ∀ t ∈ s.tables.values, ∀ r ∈ t.columns.values.map t.columnRow, r.table = t.name := by
    intro t _ r hr
    obtain ⟨x, -, rfl⟩ := List.mem_map.mp hr
    rfl
  have hrows : ∀ t ∈ s.tables.values, t.columns.values.map t.columnRow ≠ [] := by
    intro t ht hnil
    obtain ⟨name, ht⟩ := OrderedMap.mem_values_iff.mp ht
    exact hne name t ht (List.map_eq_nil_iff.mp (List.map_eq_nil_iff.mp hnil))
  obtain ⟨l, hmoves⟩ := ColumnRow.exists_moves (k := ⟨.empty, []⟩) (h.pairwise_columnRows hv)
    fun r _ => r.fits_empty
  have hl := moves_columns hmoves
  rw [warnings_columnRows] at hl
  refine ⟨columnShapes s.columnRows, hl ▸ hmoves, ?_, ?_⟩
  · rw [columnShapes, OrderedMap.keys_foldl_enter, ← hkeys]
    exact groupKeys_flatMap hnodup htable hrows
  · intro name t ht
    have hmem := OrderedMap.mem_values_of_get? ht
    have hname := (hsound.table name t ht).1
    refine ⟨_, ?_, h.tells_foldl_stroked hv ht⟩
    have hown : (s.columnRows.filter fun r => r.table = name) = t.columns.values.map t.columnRow := by
      rw [← hname]
      exact filter_flatMap_rows hnodup htable hmem
    rw [get?_columnShapes, hown, if_neg (hrows t hmem)]

end Snapshot
end SchemaSync
