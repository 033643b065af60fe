import SchemaSync.Proofs.Catalog.KeyRules
import SchemaSync.Rows.Assembly

/-!
# Sketches

What an assembly has made so far is a shape and the warnings that it has left: a sketch. The steps of an
assembly track relations between sketches, in the sense of `Tracks`. A row of a column goes through exactly
if its strokes fit the shape of its table (`Rows.ColumnRow.tracks_addColumn`), so a snapshot that is built from the
rows of columns alone can be told from these rows (`Rows.BuiltFrom.sketched`).
-/

namespace SchemaSync.Rows

open Catalog

variable {α β : Type} {s : SnapshotId} {name : String}

/-! ## Drafts and sketches -/

/-- The shape that a draft draws, and its warnings. -/
structure Sketch where
  shape : OrderedMap String TableShape
  warnings : List Warning

/-- What holds of the catalog of a draft and the shape of a sketch, whose warnings are those of the draft. -/
def Sketched (P : Catalog → OrderedMap String TableShape → Prop) (d : Draft) (k : Sketch) : Prop :=
  P d.catalog k.shape ∧ d.warnings = k.warnings

/-- The shape changes by a relation, and there is no warning. -/
def Redraws (R : OrderedMap String TableShape → OrderedMap String TableShape → Prop) (k l : Sketch) : Prop :=
  ∃ n, R k.shape n ∧ l = ⟨n, k.warnings⟩

/-- There are warnings, and the shape stays. -/
def Warns (ws : List Warning) (k l : Sketch) : Prop := l = ⟨k.shape, k.warnings ++ ws⟩

section
variable {P : Catalog → OrderedMap String TableShape → Prop}
  {Q : α → Catalog → OrderedMap String TableShape → Prop}
  {R : OrderedMap String TableShape → OrderedMap String TableShape → Prop}

/-- An edit is carried out. -/
theorem tracks_edit {e : Edit α} (h : Tracks P e R Q) :
    Tracks (Sketched P) (edit e) (Redraws R) fun v => Sketched (Q v) where
  leads := by
    rintro d k ⟨hd, hw⟩ v y hy
    have hpair : ((outcomeOf e d.catalog).1, { d with catalog := (outcomeOf e d.catalog).2 }) = (.ok v, y) := hy
    obtain ⟨hresult, rfl⟩ := Prod.mk.inj hpair
    obtain ⟨n, hn, hview⟩ := h.leads d.catalog k.shape hd v _ (Prod.ext hresult rfl)
    exact ⟨⟨n, k.warnings⟩, ⟨n, hn, rfl⟩, hview, hw⟩
  allows := by
    rintro d k _ ⟨hd, hw⟩ ⟨n, hR, rfl⟩
    obtain ⟨v, c, hv, hview⟩ := h.allows d.catalog k.shape n hd hR
    refine ⟨v, { d with catalog := c }, ?_, hview, hw⟩
    show ((outcomeOf e d.catalog).1, { d with catalog := (outcomeOf e d.catalog).2 }) = _
    rw [hv]

theorem tracks_warn (w : Warning) :
    Tracks (Sketched P) (warn w) (Warns [w]) fun _ => Sketched P where
  leads := by
    rintro d k ⟨hd, hw⟩ v y ⟨⟩
    exact ⟨_, rfl, hd, congrArg (· ++ [w]) hw⟩
  allows := by
    rintro d k _ ⟨hd, hw⟩ rfl
    exact ⟨(), _, rfl, hd, congrArg (· ++ [w]) hw⟩

end

/-- The catalog may be looked at first. -/
theorem tracks_now_bind {pre : Draft → Sketch → Prop} {f : Catalog → Assembly β} {R : Sketch → Sketch → Prop}
    {post : β → Draft → Sketch → Prop} (h : ∀ c, Tracks (fun d k => pre d k ∧ d.catalog = c) (f c) R post) :
    Tracks pre (now >>= f) R post where
  leads := fun d k hd => (h d.catalog).leads d k ⟨hd, rfl⟩
  allows := fun d k l hd => (h d.catalog).allows d k l ⟨hd, rfl⟩

theorem comp_redraws (R Q : OrderedMap String TableShape → OrderedMap String TableShape → Prop) :
    Relation.Comp (Redraws R) (Redraws Q) = Redraws (Relation.Comp R Q) := by
  funext k l
  apply propext
  constructor
  · rintro ⟨_, ⟨m, hm, rfl⟩, n, hn, rfl⟩
    exact ⟨n, ⟨m, hm, hn⟩, rfl⟩
  · rintro ⟨n, ⟨m, hm, hn⟩, rfl⟩
    exact ⟨_, ⟨m, hm, rfl⟩, n, hn, rfl⟩

theorem redraws_eq : Redraws (fun m n => n = m) = fun k l => l = k := by
  funext k l
  apply propext
  constructor
  · rintro ⟨_, rfl, rfl⟩
    rfl
  · rintro rfl
    exact ⟨_, rfl, rfl⟩

/-! ## Columns -/

/-- The table of a row is found or made. -/
theorem tracks_tableFor (name : String) : Tracks (Sketched (Catalog.Draws · s)) (tableFor s name)
    (Redraws fun m n => n = m.insert name ((m.get? name).getD .empty))
    fun t => Sketched (DrawsWith s name t) := by
  unfold tableFor
  refine tracks_now_bind fun c => Tracks.of_point fun d k hd => ?_
  obtain ⟨⟨hd, hw⟩, rfl⟩ := hd
  cases ht : d.catalog.findTable? s name with
  | some t =>
      have hsame : k.shape.insert name ((k.shape.get? name).getD .empty) = k.shape := by
        rw [Draws.get?_eq hd ht, Option.getD_some, ← OrderedMap.update_eq_insert (Draws.get?_eq hd ht) fun sh => sh,
          OrderedMap.update_id]
      refine ⟨?_, ?_⟩
      · rintro _ _ ⟨rfl, rfl⟩ v y ⟨⟩
        exact ⟨_, ⟨_, hsame.symm, rfl⟩, ⟨hd, ht⟩, hw⟩
      · rintro _ _ l ⟨rfl, rfl⟩ ⟨n, rfl, rfl⟩
        rw [hsame]
        exact ⟨t, _, rfl, ⟨hd, ht⟩, hw⟩
  | none =>
      have hfree : k.shape.get? name = none := by
        rw [← hd.shape, get?_shape_snapshot, ht, Option.map_none]
      refine ((tracks_edit (Draws.tracks_createTable name)).restrict ?_).congr ?_ fun _ _ _ => id
      · rintro _ _ ⟨rfl, rfl⟩
        exact ⟨hd, hw⟩
      · rintro _ _ l ⟨rfl, rfl⟩
        unfold Redraws
        simp [hfree]

namespace ColumnRow

/-- The warning that the type of a row is not known, if it is not. -/
def warnings (r : ColumnRow) : List Warning :=
  match ColumnType.read r.type with
  | .known _ => []
  | .unrecognised word => [.unknownType word]

def spec (r : ColumnRow) : ColumnSpec where
  name := r.column
  type := (ColumnType.read r.type).type.keyword
  notNull := r.notNull == 1
  default := r.default
  autoIncrement := false
  unique := false

/-- The strokes of a row: its column, and its primary key slot if it gives one. -/
def strokes (r : ColumnRow) : List Stroke :=
  .column r.spec :: if 0 < r.slot then [.slot r.slot r.column] else []

def stroked (sh : TableShape) (r : ColumnRow) : TableShape := r.strokes.foldl Stroke.draw sh

def Step (r : ColumnRow) (k l : Sketch) : Prop :=
  Stroke.FitAll (fun _ => False) ((k.shape.get? r.table).getD .empty) r.strokes ∧
    l = ⟨k.shape.enter .empty ColumnRow.table stroked r,
      k.warnings ++ r.warnings⟩

theorem tracks_columnType (r : ColumnRow) {P : Catalog → OrderedMap String TableShape → Prop} :
    Tracks (Sketched P) (columnType r.type) (Warns r.warnings)
      fun type d k => Sketched P d k ∧ type = (ColumnType.read r.type).type := by
  unfold columnType warnings
  cases ColumnType.read r.type with
  | known type =>
      have hnone : ∀ k : Sketch, Warns [] k k := fun k => by rw [Warns, List.append_nil]
      refine ⟨?_, ?_⟩
      · rintro d k hd v y ⟨⟩
        exact ⟨k, hnone k, hd, rfl⟩
      · rintro d k l hd hl
        obtain rfl : l = k := hl.trans (hnone k).symm
        exact ⟨type, d, rfl, hd, rfl⟩
  | unrecognised word =>
      refine ⟨?_, ?_⟩
      · rintro d k ⟨hd, hw⟩ v y ⟨⟩
        exact ⟨_, rfl, ⟨hd, congrArg (· ++ _) hw⟩, rfl⟩
      · rintro d k _ ⟨hd, hw⟩ rfl
        exact ⟨_, _, rfl, ⟨hd, congrArg (· ++ _) hw⟩, rfl⟩

/-- Strokes of columns and slots ask for no room on other tables. -/
theorem filterMap_indexName?_strokes (r : ColumnRow) : r.strokes.filterMap Stroke.indexName? = [] := by
  unfold strokes
  split <;> rfl

theorem tracks_addColumn (r : ColumnRow) : Tracks (Sketched (Catalog.Draws · s)) (addColumn s r) r.Step
    fun _ => Sketched (Catalog.Draws · s) := by
  have hslot (t : TableId) : Tracks (Sketched (DrawsWith s r.table t))
      (if 0 < r.slot then edit (Edit.setPrimaryKeyColumn t (.named r.column) r.slot) else pure ())
      (Redraws (Moves (Stroke.Step r.table) (if 0 < r.slot then [.slot r.slot r.column] else [])))
      fun _ => Sketched (Catalog.Draws · s) := by
    split
    next =>
      rw [moves_singleton]
      exact (tracks_edit (Draws.tracks_setPrimaryKeyColumn r.column r.slot)).congr (fun _ _ _ _ => Iff.rfl)
        fun _ _ _ h => ⟨h.1.1, h.2⟩
    next =>
      show Tracks _ _ (Redraws fun m n => n = m) _
      rw [redraws_eq]
      exact (tracks_pure ()).congr (fun _ _ _ _ => Iff.rfl) fun _ _ _ h => ⟨h.1.1, h.2⟩
  have hcolumn (t : TableId) (type : ColumnType) : Tracks
      (fun d k => Sketched (DrawsWith s r.table t) d k ∧ type = (ColumnType.read r.type).type)
      (edit (Edit.createColumn t ⟨r.column, type.keyword, r.notNull == 1, r.default, false, false⟩))
      (Redraws ((Stroke.column r.spec).Step r.table)) fun _ => Sketched (DrawsWith s r.table t) := by
    by_cases htype : type = (ColumnType.read r.type).type
    · have hspec : (⟨r.column, type.keyword, r.notNull == 1, r.default, false, false⟩ : ColumnSpec) = r.spec := by
        rw [spec, htype]
      rw [hspec]
      exact (tracks_edit (Draws.tracks_createColumn r.spec)).restrict fun _ _ h => h.1
    · exact ⟨fun _ _ h => absurd h.2 htype, fun _ _ _ h => absurd h.2 htype⟩
  have hrun := (tracks_tableFor (s := s) r.table).bind fun t => (tracks_columnType r).bind fun type =>
    (hcolumn t type).bind fun _ => hslot t
  refine hrun.congr (fun d k l _ => ?_) fun _ _ _ => id
  have hname : (k.shape.insert r.table ((k.shape.get? r.table).getD .empty)).get? r.table =
      some ((k.shape.get? r.table).getD .empty) := by
    rw [OrderedMap.get?_insert, if_pos rfl]
  have hmoves {n : OrderedMap String TableShape} := @Stroke.moves_iff r.table r.strokes _ n _ hname
  rw [Stroke.fitAll_iff, filterMap_indexName?_strokes, OrderedMap.insert_insert] at hmoves
  have hstep : r.Step k l ↔ ∃ n, Moves (Stroke.Step r.table) r.strokes
      (k.shape.insert r.table ((k.shape.get? r.table).getD .empty)) n ∧ l = ⟨n, k.warnings ++ r.warnings⟩ := by
    simp [hmoves, Step, stroked, OrderedMap.enter]
  rw [hstep]
  constructor
  · rintro ⟨_, ⟨n, rfl, rfl⟩, _, rfl, _, ⟨n', hn', rfl⟩, n'', hn'', rfl⟩
    exact ⟨n'', ⟨n', hn', hn''⟩, rfl⟩
  · rintro ⟨n'', ⟨n', hn', hn''⟩, rfl⟩
    exact ⟨_, ⟨_, rfl, rfl⟩, _, rfl, _, ⟨n', hn', rfl⟩, n'', hn'', rfl⟩

def form (r : ColumnRow) : ColumnForm := r.spec.form (ColumnType.read r.type).type

theorem stroked_eq (r : ColumnRow) (sh : TableShape) : stroked sh r =
    if 0 < r.slot then (sh.addColumn r.column r.form).fillSlot r.slot r.column else sh.addColumn r.column r.form := by
  have hcolumn : Stroke.draw sh (.column r.spec) = sh.addColumn r.column r.form := by
    show sh.addColumn r.column (r.spec.form ((ColumnType.ofKeyword? r.spec.type).getD .unknown)) = _
    rw [form, spec, ColumnType.ofKeyword?_keyword, Option.getD_some]
  unfold stroked strokes
  rw [List.foldl_cons, hcolumn]
  split <;> rfl

/-- The columns of a table are those that its rows name, after the ones that are there. -/
theorem contains_columns_foldl_stroked {rows : List ColumnRow} {sh : TableShape} {x : String} :
    (rows.foldl stroked sh).columns.contains x = true ↔
      sh.columns.contains x = true ∨ ∃ r ∈ rows, r.column = x := by
  induction rows generalizing sh with
  | nil => simp
  | cons r rows ih =>
      have hfirst : (stroked sh r).columns.contains x = true ↔ sh.columns.contains x = true ∨ r.column = x := by
        have hcolumns : (stroked sh r).columns = sh.columns.insert r.column r.form := by
          rw [r.stroked_eq]
          split <;> rfl
        rw [hcolumns, OrderedMap.contains, OrderedMap.get?_insert]
        by_cases hname : r.column = x <;> simp [hname, OrderedMap.contains]
      rw [List.foldl_cons, ih, hfirst, or_assoc, List.exists_mem_cons_iff]

end ColumnRow

/-- A table with columns and a primary key at most. -/
structure Bare (sh : TableShape) : Prop where
  uniques : sh.uniques = []
  foreignKeys : sh.foreignKeys = []
  indexes : sh.indexes = .empty

theorem Bare.foldl_stroked {rows : List ColumnRow} {sh : TableShape} (h : Bare sh) :
    Bare (rows.foldl ColumnRow.stroked sh) := by
  induction rows generalizing sh with
  | nil => exact h
  | cons r rows ih =>
      rw [List.foldl_cons, r.stroked_eq]
      apply ih
      split <;> exact ⟨h.uniques, h.foreignKeys, h.indexes⟩

def columnShapes (rows : List ColumnRow) : OrderedMap String TableShape :=
  rows.foldl (OrderedMap.enter .empty ColumnRow.table ColumnRow.stroked) .empty

theorem get?_columnShapes (rows : List ColumnRow) (name : String) : (columnShapes rows).get? name =
    if (rows.filter fun r => r.table = name) = [] then none
    else some ((rows.filter fun r => r.table = name).foldl ColumnRow.stroked .empty) := by
  rw [columnShapes, OrderedMap.get?_foldl_enter, OrderedMap.get?_empty, Option.getD_none]

theorem bare_columnShapes {rows : List ColumnRow} {sh : TableShape} (hname : (columnShapes rows).get? name = some sh) :
    Bare sh := by
  rw [get?_columnShapes] at hname
  split at hname
  next => cases hname
  next =>
    rw [← Option.some.inj hname]
    exact Bare.foldl_stroked ⟨rfl, rfl, rfl⟩

/-- What rows of columns are entered as. -/
theorem moves_columns {rows : List ColumnRow} {l : Sketch} (h : Moves ColumnRow.Step rows ⟨.empty, []⟩ l) :
    l = ⟨columnShapes rows, rows.flatMap ColumnRow.warnings⟩ := by
  suffices ∀ k, Moves ColumnRow.Step rows k l →
      l = ⟨rows.foldl (OrderedMap.enter .empty ColumnRow.table ColumnRow.stroked) k.shape,
        k.warnings ++ rows.flatMap ColumnRow.warnings⟩ from this _ h
  clear h
  induction rows with
  | nil =>
      rintro k h
      obtain rfl : l = k := h
      rw [List.flatMap_nil, List.append_nil]
      rfl
  | cons r rows ih =>
      rintro k ⟨_, ⟨-, rfl⟩, hrest⟩
      rw [ih _ hrest, List.flatMap_cons, List.append_assoc]
      rfl

/-- A snapshot is built from the rows of columns, and from nothing else. -/
def BuiltFrom (rows : List ColumnRow) (s : SnapshotId) (d : Draft) : Prop :=
  outcomeOf (do let s ← edit Edit.createSnapshot; addColumns s rows; pure s) ⟨.empty, []⟩ = (.ok s, d)

namespace BuiltFrom

variable {rows : List ColumnRow} {d : Draft} {sh : TableShape}

/-- What is built from rows is told by them. -/
theorem sketched (h : BuiltFrom rows s d) : Sketched (Catalog.Draws · s) d
    ⟨columnShapes rows, rows.flatMap ColumnRow.warnings⟩ := by
  have hrun : outcomeOf (addColumns ⟨0⟩ rows >>= fun _ => pure (⟨0⟩ : SnapshotId))
      ⟨Catalog.addSnapshot .empty, []⟩ = (.ok s, d) := h
  obtain ⟨v, e, hcolumns, hdone⟩ := outcomeOf_bind_eq_ok_iff.mp hrun
  cases hdone
  obtain ⟨l, hmoves, hl⟩ := (Tracks.forM fun r (_ : r ∈ rows) => r.tracks_addColumn).leads
    ⟨Catalog.addSnapshot .empty, []⟩ ⟨.empty, []⟩ ⟨Catalog.draws_addSnapshot, rfl⟩ v d hcolumns
  exact moves_columns hmoves ▸ hl

theorem draws (h : BuiltFrom rows s d) : d.catalog.Draws s (d.catalog.snapshot s).shape :=
  ⟨h.sketched.1.wellFormed, h.sketched.1.issued, rfl⟩

theorem shape (h : BuiltFrom rows s d) : (d.catalog.snapshot s).shape = columnShapes rows := h.sketched.1.shape

/-- The tables are bare. -/
theorem bare (h : BuiltFrom rows s d) (hname : (d.catalog.snapshot s).shape.get? name = some sh) : Bare sh :=
  bare_columnShapes (h.shape ▸ hname)

/-- A table has the columns that its rows name. -/
theorem hasColumns (h : BuiltFrom rows s d) {columns : List String} (htable : ∃ r ∈ rows, r.table = name)
    (hcolumns : ∀ x ∈ columns, ∃ r ∈ rows, r.table = name ∧ r.column = x) :
    HasColumns (d.catalog.snapshot s).shape name columns := by
  obtain ⟨r, hr, hrname⟩ := htable
  have hne : (rows.filter fun r => r.table = name) ≠ [] :=
    List.ne_nil_of_mem (List.mem_filter.mpr ⟨hr, by simpa using hrname⟩)
  refine ⟨_, h.shape ▸ (get?_columnShapes rows name).trans (if_neg hne), fun x hx => ?_⟩
  obtain ⟨q, hq, hqname, hqcolumn⟩ := hcolumns x hx
  refine ColumnRow.contains_columns_foldl_stroked.mpr (Or.inr ⟨q, ?_, hqcolumn⟩)
  exact List.mem_filter.mpr ⟨hq, by simpa using hqname⟩

end BuiltFrom
end SchemaSync.Rows
