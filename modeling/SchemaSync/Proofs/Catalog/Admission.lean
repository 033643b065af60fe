import SchemaSync.Proofs.Catalog.Dangling
import SchemaSync.Proofs.Catalog.Strokes

/-!
# Edits as strokes

Whether an edit that makes a part goes through can be read off the shape that the catalog draws: the
conditions under which `Catalog.Draws.createColumn` and its like succeed are all that the edit checks. So each
such edit tracks its stroke, and a foreign key its request, in the sense of `Tracks`: whoever puts a
snapshot together knows from the shape alone when the next edit will fail.
-/

namespace SchemaSync

namespace Catalog

variable {c : Catalog} {t : TableId} {ids : List ColumnId}

/-! ## Names and handles -/

/-- Columns of one table and one name are the same. -/
theorem Linked.eq_of_name (hl : c.Linked) {x y : ColumnId} (hx : c.columns.Issued x)
    (hy : c.columns.Issued y) (howner : (c.columns.get x).owner = (c.columns.get y).owner)
    (hname : (c.columns.get x).name = (c.columns.get y).name) : x = y := by
  have hheld := hl.held x hx
  rw [howner, hname, hl.held y hy] at hheld
  exact (Option.some.inj hheld).symm

theorem Owns.eq_of_columnNames (hl : c.Linked) :
    ∀ {ids others : List ColumnId}, c.Owns t ids → c.Owns t others →
      columnNames (ids.map c.column) = columnNames (others.map c.column) → ids = others
  | [], [], _, _, _ => rfl
  | [], _ :: _, _, _, h => by cases h
  | _ :: _, [], _, _, h => by cases h
  | x :: ids, y :: others, hx, hy, h => by
    obtain ⟨hname, hrest⟩ := List.cons.inj h
    obtain ⟨⟨hxIssued, hxOwner⟩, hids⟩ := List.forall_mem_cons.mp hx
    obtain ⟨⟨hyIssued, hyOwner⟩, hothers⟩ := List.forall_mem_cons.mp hy
    rw [hl.eq_of_name hxIssued hyIssued (hxOwner.trans hyOwner.symm) hname,
      Owns.eq_of_columnNames hl hids hothers hrest]

/-- Different columns of one table have different names. -/
theorem Owns.nodup_columnNames (hl : c.Linked) (h : c.Owns t ids) (hnodup : ids.Nodup) :
    (columnNames (ids.map c.column)).Nodup := by
  unfold columnNames
  rw [List.map_map]
  refine List.Nodup.map_on (fun x hx y hy hname => ?_) hnodup
  obtain ⟨hxIssued, hxOwner⟩ := h x hx
  obtain ⟨hyIssued, hyOwner⟩ := h y hy
  exact hl.eq_of_name hxIssued hyIssued (hxOwner.trans hyOwner.symm) hname

/-- A table has a column of each name that its own columns go by. -/
theorem Owns.contains_columns (hl : c.Linked) (h : c.Owns t ids) :
    ∀ x ∈ columnNames (ids.map c.column), (c.shapeOf (c.tables.get t)).columns.contains x = true := by
  intro x hx
  obtain ⟨column, hcolumn, rfl⟩ := List.mem_map.mp hx
  obtain ⟨id, hid, rfl⟩ := List.mem_map.mp hcolumn
  obtain ⟨hissued, howner⟩ := h id hid
  have hheld := hl.held id hissued
  rw [howner] at hheld
  exact OrderedMap.contains_of_get? (a := (c.column id).form) (by
    rw [get?_columns_shapeOf]
    exact congrArg (Option.map _) hheld)

end Catalog

namespace Edit

open Catalog

variable {c : Catalog} {t : TableId}

/-- Names that stand for columns are names of columns that the table has. -/
theorem reads_resolveColumns_named (hl : c.Linked) :
    ∀ {names : List String}, Reads (resolveColumns t (names.map .named)) c fun ids =>
      c.Owns t ids ∧ columnNames (ids.map c.column) = names
  | [] => Reads.pure ⟨by rintro id ⟨⟩, rfl⟩
  | n :: names => by
    have hrest : Reads (resolveColumns t (names.map .named)) c fun ids =>
      c.Owns t ids ∧ columnNames (ids.map c.column) = names := reads_resolveColumns_named hl
    refine (reads_getColumn t n).bind fun id hid => hrest.bind fun ids hids => ?_
    obtain ⟨hissued, howner, hname⟩ := hl.column t n id hid
    exact Reads.pure ⟨List.forall_mem_cons.mpr ⟨⟨hissued, howner⟩, hids.1⟩, congrArg₂ List.cons hname hids.2⟩

end Edit

namespace Catalog

def DrawsWith (s : SnapshotId) (name : String) (t : TableId) (c : Catalog)
    (m : OrderedMap String TableShape) : Prop := c.Draws s m ∧ c.findTable? s name = some t

namespace Draws

open Edit

variable {c d : Catalog} {s : SnapshotId} {t u : TableId} {name : String} {sh : TableShape}
  {m : OrderedMap String TableShape}

theorem get?_eq (h : c.Draws s m) (ht : c.findTable? s name = some t) :
    m.get? name = some (c.shapeOf (c.tables.get t)) := by
  rw [← h.shape, get?_shape_snapshot, ht, Option.map_some, shape_table]

theorem get?_eq_none (h : c.Draws s m) (ht : c.findTable? s name = none) : m.get? name = none := by
  rw [← h.shape, get?_shape_snapshot, ht, Option.map_none]

/-- A constraint is over columns of its table. -/
theorem contains_of_mem_uniques (h : c.Draws s m) (hname : m.get? name = some sh) {columns : List String}
    (hcolumns : columns ∈ sh.uniques) : ∀ x ∈ columns, sh.columns.contains x = true := by
  obtain ⟨t, -, rfl⟩ := h.find hname
  obtain ⟨unique, hunique, rfl⟩ := List.mem_map.mp hcolumns
  obtain ⟨u, hu, rfl⟩ := List.mem_map.mp hunique
  exact (h.wellFormed.owned.unique t u hu).2.columns.contains_columns h.wellFormed.linked

/-! ### What goes through -/

theorem free_of_createTable (h : c.Draws s m) {t : TableId}
    (hok : outcome (Edit.createTable s name) c = (.ok t, d)) : m.get? name = none := by
  obtain ⟨hfree, -⟩ := unless_eq_ok (c := c) hok
  rw [← h.shape, get?_shape_snapshot]
  simpa using hfree

theorem fits_of_createColumn (h : c.Draws s m) (ht : c.findTable? s name = some t)
    (hname : m.get? name = some sh) {spec : ColumnSpec} {id : ColumnId}
    (hok : outcome (Edit.createColumn t spec) c = (.ok id, d)) (taken : String → Prop) :
    (Stroke.column spec).Fits taken sh := by
  obtain rfl := h.shapeOf_eq ht hname
  obtain ⟨hfree, hok⟩ := unless_eq_ok (c := c) hok
  obtain ⟨type, htype, -⟩ := (reads_columnType spec.type).bind_eq_ok hok
  have hnone : c.findColumn? t spec.name = none := by simpa using hfree
  refine ⟨?_, by rw [htype, Option.isSome_some]⟩
  rw [get?_columns_shapeOf]
  exact congrArg (Option.map _) hnone

theorem fits_of_setPrimaryKeyColumn (h : c.Draws s m) (ht : c.findTable? s name = some t)
    (hname : m.get? name = some sh) {column : String} {slot : Int}
    (hok : outcome (Edit.setPrimaryKeyColumn t (.named column) slot) c = (.ok (), d))
    (taken : String → Prop) : (Stroke.slot slot column).Fits taken sh := by
  obtain rfl := h.shapeOf_eq ht hname
  have hl := h.wellFormed.linked
  obtain ⟨id, hid, hok⟩ := (reads_getColumn t column).bind_eq_ok hok
  obtain ⟨hissued, howner, hcalled⟩ := hl.column t column id hid
  obtain ⟨hpos, hok⟩ := unless_eq_ok (c := c) hok
  obtain ⟨hslot, hok⟩ := unless_eq_ok (c := c) hok
  obtain ⟨-, hok⟩ := unless_eq_ok (c := c) hok
  obtain ⟨hnew, -⟩ := unless_eq_ok (c := c) hok
  refine ⟨by omega, ?_, ?_, ?_⟩
  · exact OrderedMap.contains_of_get? (a := (c.column id).form) (by
      rw [get?_columns_shapeOf]
      exact congrArg (Option.map _) hid)
  · rw [get?_slots_shapeOf]
    simpa [OrderedMap.contains] using hslot
  · intro hmem
    have hvalues : (c.shapeOf (c.tables.get t)).slots.values =
        columnNames ((c.tables.get t).slots.values.map c.column) := by
      show (((c.tables.get t).slots.map c.column).map Column.name).values = _
      rw [OrderedMap.values_map, OrderedMap.values_map]
      rfl
    rw [hvalues] at hmem
    obtain ⟨other, hother, hsame⟩ := List.mem_map.mp hmem
    obtain ⟨x, hx, rfl⟩ := List.mem_map.mp hother
    obtain ⟨hxIssued, hxOwner⟩ := (h.wellFormed.owned.slots t).1 x hx
    have heq := hl.eq_of_name hxIssued hissued (hxOwner.trans howner.symm) (Eq.trans hsame hcalled.symm)
    exact hnew (List.contains_iff_mem.mpr (heq ▸ hx))

theorem fits_of_createUnique (h : c.Draws s m) (ht : c.findTable? s name = some t)
    (hname : m.get? name = some sh) {columns : List String} {u : UniqueId}
    (hok : outcome (Edit.createUnique t (columns.map .named)) c = (.ok u, d)) (taken : String → Prop) :
    (Stroke.unique columns).Fits taken sh := by
  obtain rfl := h.shapeOf_eq ht hname
  have hl := h.wellFormed.linked
  obtain ⟨ids, ⟨howns, rfl⟩, hrest⟩ := (reads_resolveColumns_named hl).bind_eq_ok hok
  obtain ⟨-, hverify, hrest⟩ := reads_check.bind_eq_ok hrest
  obtain ⟨hnew, -⟩ := unless_eq_ok (c := c) hrest
  rw [Unique.verify, firstOf_eq_ok_iff, Unique.violations_eq_nil_iff] at hverify
  have hnodup : ((ids.map c.column).map Column.id).Nodup := hverify.nodup
  rw [map_id_resolved] at hnodup
  refine ⟨howns.contains_columns hl, howns.nodup_columnNames hl hnodup, fun hmem => hnew ?_⟩
  obtain ⟨unique, hunique, hsame⟩ := List.mem_map.mp hmem
  obtain ⟨v, hv, rfl⟩ := List.mem_map.mp hunique
  have hids := Owns.eq_of_columnNames hl (h.wellFormed.owned.unique t v hv).2.columns howns hsame
  exact List.any_eq_true.mpr ⟨v, hv, by rw [hids, beq_self_eq_true]⟩

theorem fits_of_createIndex (h : c.Draws s m) (ht : c.findTable? s name = some t)
    (hname : m.get? name = some sh) {index : String} {columns : List String} {unique : Bool} {i : IndexId}
    (hok : outcome (Edit.createIndex t index (columns.map .named) unique) c = (.ok i, d)) :
    (Stroke.index index columns unique).Fits (Taken m name) sh := by
  have hl := h.wellFormed.linked
  obtain ⟨-, hschema, -⟩ := hl.table s name t ht
  unfold Edit.createIndex at hok
  rw [outcome_bind, outcome_get] at hok
  dsimp only at hok
  rw [hschema] at hok
  cases hnone : c.findIndex? s index with
  | some other =>
      rw [hnone] at hok
      cases hok
  | none =>
  rw [hnone] at hok
  have hfree := h.findIndex?_eq_none_iff.mp hnone
  obtain ⟨ids, ⟨howns, rfl⟩, -⟩ := (reads_resolveColumns_named hl).bind_eq_ok hok
  obtain rfl := h.shapeOf_eq ht hname
  refine ⟨howns.contains_columns hl, hfree name _ hname, ?_⟩
  rintro ⟨key, other, -, hkey, hindex⟩
  exact absurd (hfree key other hkey) (Option.isSome_iff_ne_none.mp hindex)

/-- A foreign key that is made to a table of the snapshot fits it. -/
theorem fits_of_createForeignKey (h : c.Draws s m) (ht : c.findTable? s name = some t) {r : KeyRequest}
    (hu : c.findTable? s r.target = some u) {k : ForeignKeyId}
    (hok : outcome (Edit.createForeignKey t (r.spec (.handle u))) c = (.ok k, d)) :
    ∃ key, r.form? = some key ∧ key.Fits m name := by
  have hl := h.wellFormed.linked
  obtain ⟨-, -, hcalled⟩ := hl.table s name t ht
  obtain ⟨-, -, hucalled⟩ := hl.table s r.target u hu
  obtain ⟨v, rfl, hrest⟩ := (Reads.pure rfl : Reads (resolveTable t (.handle u)) c (u = ·)).bind_eq_ok hok
  obtain ⟨-, hrest⟩ := unless_eq_ok (c := c) hrest
  obtain ⟨localIds, ⟨hlocal, hlocalNames⟩, hrest⟩ := (reads_resolveColumns_named hl).bind_eq_ok hrest
  obtain ⟨foreignIds, ⟨hforeign, hforeignNames⟩, hrest⟩ := (reads_resolveColumns_named hl).bind_eq_ok hrest
  obtain ⟨onUpdate, hupdate, hrest⟩ := (reads_action r.onUpdate).bind_eq_ok hrest
  obtain ⟨onDelete, hdelete, hrest⟩ := (reads_action r.onDelete).bind_eq_ok hrest
  obtain ⟨-, hverify, -⟩ := reads_check.bind_eq_ok hrest
  obtain ⟨-, hne, hsome, hlength, -, -, hlocalNodup, hforeignNodup⟩ :=
    ForeignKeyEntry.owned_of_verify (fun id hid => (hlocal id hid).1) (fun id hid => (hforeign id hid).1) hverify
  have hcount : ∀ ids : List ColumnId, (columnNames (ids.map c.column)).length = ids.length := by
    intro ids
    rw [columnNames, List.length_map, List.length_map]
  refine ⟨⟨r.localColumns, r.foreignColumns, r.target, onUpdate, onDelete⟩,
    KeyRequest.form?_eq_some_iff.mpr ⟨hupdate, hdelete, rfl, rfl, rfl⟩, ?_⟩
  rw [← hlocalNames, ← hforeignNames]
  refine ⟨⟨_, h.get?_eq ht, hlocal.contains_columns hl⟩, ⟨_, h.get?_eq hu, hforeign.contains_columns hl⟩,
    fun htarget => ?_, fun hnil => ?_, ?_, hlocal.nodup_columnNames hl hlocalNodup,
    hforeign.nodup_columnNames hl hforeignNodup⟩
  · replace htarget : r.target = name := htarget
    rw [htarget] at hu
    exact hne (Option.some.inj (hu.symm.trans ht))
  · exact hsome (List.map_eq_nil_iff.mp (List.map_eq_nil_iff.mp hnil))
  · show (columnNames (foreignIds.map c.column)).length = (columnNames (localIds.map c.column)).length
    rw [hcount, hcount]
    exact hlength

/-! ### Edits as strokes -/

/-- An edit of one table is a stroke if it succeeds exactly where the stroke fits, and draws it then. -/
theorem tracks_stroke {α : Type} {e : Edit α} {st : Stroke}
    (hfits : ∀ {c d : Catalog} {m : OrderedMap String TableShape} {sh : TableShape} {v : α},
      c.Draws s m → c.findTable? s name = some t → m.get? name = some sh →
        outcome e c = (.ok v, d) → st.Fits (Taken m name) sh)
    (hdraws : ∀ {c : Catalog} {m : OrderedMap String TableShape} {sh : TableShape},
      c.Draws s m → c.findTable? s name = some t → m.get? name = some sh → st.Fits (Taken m name) sh →
        ∃ v d, outcome e c = (.ok v, d) ∧ d.findTable? s name = some t ∧
          d.Draws s (m.insert name (st.draw sh))) :
    Tracks (DrawsWith s name t) e (st.Step name) fun _ => DrawsWith s name t where
  leads := by
    rintro c m ⟨h, ht⟩ v d hv
    have hname := h.get?_eq ht
    have hst := hfits h ht hname hv
    obtain ⟨w, d', hw, ht', hd⟩ := hdraws h ht hname hst
    obtain ⟨-, rfl⟩ := Prod.mk.inj (hv.symm.trans hw)
    exact ⟨_, ⟨_, hname, hst, rfl⟩, hd, ht'⟩
  allows := by
    rintro c m n ⟨h, ht⟩ ⟨sh, hname, hst, rfl⟩
    obtain ⟨v, d, hv, ht', hd⟩ := hdraws h ht hname hst
    exact ⟨v, d, hv, hd, ht'⟩

theorem tracks_createColumn (spec : ColumnSpec) :
    Tracks (DrawsWith s name t) (Edit.createColumn t spec) ((Stroke.column spec).Step name)
      fun _ => DrawsWith s name t := by
  refine tracks_stroke (fun h ht hname hok => h.fits_of_createColumn ht hname hok _) ?_
  rintro c m sh h ht hname ⟨hfree, htype⟩
  obtain ⟨type, htype⟩ := Option.isSome_iff_exists.mp htype
  cases hunique : spec.unique with
  | false =>
      obtain ⟨id, d, hmade, ht', hd⟩ := h.createColumn ht hname spec hfree htype hunique
      rw [OrderedMap.update_eq_insert hname] at hd
      refine ⟨id, d, hmade, ht', ?_⟩
      rw [Stroke.draw, htype, hunique]
      exact hd
  | true =>
      obtain ⟨id, d, hmade, ht', hd⟩ := h.createColumn_unique ht hname spec hfree htype hunique
        fun _ => h.contains_of_mem_uniques hname
      rw [OrderedMap.update_eq_insert hname] at hd
      refine ⟨id, d, hmade, ht', ?_⟩
      rw [Stroke.draw, htype, hunique]
      exact hd

theorem tracks_setPrimaryKeyColumn (column : String) (slot : Int) :
    Tracks (DrawsWith s name t) (Edit.setPrimaryKeyColumn t (.named column) slot)
      ((Stroke.slot slot column).Step name) fun _ => DrawsWith s name t := by
  refine tracks_stroke (fun h ht hname hok => h.fits_of_setPrimaryKeyColumn ht hname hok _) ?_
  rintro c m sh h ht hname ⟨hpos, hcolumn, hfree, hnew⟩
  obtain ⟨d, hmade, ht', hd⟩ := h.setPrimaryKeyColumn ht hname column slot hpos hcolumn hfree hnew
  rw [OrderedMap.update_eq_insert hname] at hd
  exact ⟨(), d, hmade, ht', hd⟩

theorem tracks_createUnique (columns : List String) :
    Tracks (DrawsWith s name t) (Edit.createUnique t (columns.map .named))
      ((Stroke.unique columns).Step name) fun _ => DrawsWith s name t := by
  refine tracks_stroke (fun h ht hname hok => h.fits_of_createUnique ht hname hok _) ?_
  rintro c m sh h ht hname ⟨hcolumns, hnodup, hnew⟩
  obtain ⟨u, d, hmade, ht', hd⟩ := h.createUnique ht hname hcolumns hnodup hnew
  rw [OrderedMap.update_eq_insert hname] at hd
  exact ⟨u, d, hmade, ht', hd⟩

theorem tracks_createIndex (index : String) (columns : List String) (distinct : Bool) :
    Tracks (DrawsWith s name t) (Edit.createIndex t index (columns.map .named) distinct)
      ((Stroke.index index columns distinct).Step name) fun _ => DrawsWith s name t := by
  refine tracks_stroke (fun h ht hname hok => h.fits_of_createIndex ht hname hok) ?_
  rintro c m sh h ht hname ⟨hcolumns, hfree, htaken⟩
  obtain ⟨i, d, hmade, ht', hd⟩ := h.createIndex ht hname distinct hcolumns fun key other hkey => by
    by_cases hsame : key = name
    · rw [hsame, hname] at hkey
      obtain rfl := Option.some.inj hkey
      exact hfree
    · by_contra hother
      exact htaken ⟨key, other, hsame, hkey, Option.isSome_iff_ne_none.mpr hother⟩
  rw [OrderedMap.update_eq_insert hname] at hd
  exact ⟨i, d, hmade, ht', hd⟩

/-- Columns are put into the primary key slots one stroke after the other. -/
theorem tracks_setPrimaryKeyFrom : ∀ (columns : List String) (slot : Int),
    Tracks (DrawsWith s name t) (Edit.setPrimaryKeyFrom t slot (columns.map .named))
      (Moves (Stroke.Step name) (Stroke.key slot columns)) fun _ => DrawsWith s name t
  | [], _ => tracks_pure ()
  | column :: columns, slot =>
    (tracks_setPrimaryKeyColumn column slot).bind fun _ => tracks_setPrimaryKeyFrom columns (slot + 1)

/-- A foreign key is put on a table, its target given by its handle. -/
theorem tracks_createForeignKey (r : KeyRequest) (u : TableId) :
    Tracks (fun c m => DrawsWith s name t c m ∧ c.findTable? s r.target = some u)
      (Edit.createForeignKey t (r.spec (.handle u))) (r.Step name) fun _ => DrawsWith s name t where
  leads := by
    rintro c m ⟨⟨h, ht⟩, hu⟩ k d hmade
    obtain ⟨key, hkey, hfits⟩ := h.fits_of_createForeignKey ht hu hmade
    obtain ⟨-, -, -, -, htarget⟩ := KeyRequest.form?_eq_some_iff.mp hkey
    obtain ⟨k', d', hmade', ht', hd⟩ := h.createForeignKey ht (htarget ▸ hu) hfits
    rw [KeyRequest.spec_eq hkey] at hmade
    obtain ⟨-, rfl⟩ := Prod.mk.inj (hmade.symm.trans hmade')
    exact ⟨_, ⟨key, hkey, hfits, rfl⟩, hd, ht'⟩
  allows := by
    rintro c m n ⟨⟨h, ht⟩, hu⟩ ⟨key, hkey, hfits, rfl⟩
    obtain ⟨-, -, -, -, htarget⟩ := KeyRequest.form?_eq_some_iff.mp hkey
    obtain ⟨k, d, hmade, ht', hd⟩ := h.createForeignKey ht (htarget ▸ hu) hfits
    rw [← KeyRequest.spec_eq hkey] at hmade
    exact ⟨k, d, hmade, hd, ht'⟩

/-- A target that is given by its name is looked up first. -/
theorem outcome_createForeignKey_named (h : c.Draws s m) (ht : c.findTable? s name = some t)
    {r : KeyRequest} (hu : c.findTable? s r.target = some u) :
    outcome (Edit.createForeignKey t (r.spec (.named r.target))) c =
      outcome (Edit.createForeignKey t (r.spec (.handle u))) c := by
  obtain ⟨-, hschema, -⟩ := h.wellFormed.linked.table s name t ht
  have hfound : outcome (resolveTable t (.named r.target)) c = (.ok u, c) := by
    simp [resolveTable, getTable, outcome_bind, hschema, hu]
  show outcome (resolveTable t (.named r.target) >>= _) c = outcome (resolveTable t (.handle u) >>= _) c
  rw [outcome_bind, outcome_bind, hfound]
  rfl

theorem tracks_createForeignKey_named (r : KeyRequest) :
    Tracks (DrawsWith s name t) (Edit.createForeignKey t (r.spec (.named r.target))) (r.Step name)
      fun _ => DrawsWith s name t where
  leads := by
    rintro c m ⟨h, ht⟩ k d hmade
    obtain ⟨-, hschema, -⟩ := h.wellFormed.linked.table s name t ht
    obtain ⟨u, hu, -⟩ := (reads_resolveTable_standsFor t (.named r.target)).bind_eq_ok hmade
    replace hu : c.findTable? s r.target = some u := hschema ▸ hu
    replace hmade := (h.outcome_createForeignKey_named ht hu).symm.trans hmade
    exact (tracks_createForeignKey r u).leads c m ⟨⟨h, ht⟩, hu⟩ k d hmade
  allows := by
    rintro c m n ⟨h, ht⟩ ⟨key, hkey, hfits, rfl⟩
    obtain ⟨-, -, -, -, htarget⟩ := KeyRequest.form?_eq_some_iff.mp hkey
    obtain ⟨sh, hsh, -⟩ := hfits.foreignColumns
    obtain ⟨u, hu, -⟩ := h.find (htarget ▸ hsh)
    obtain ⟨k, d, hmade, hd⟩ := (tracks_createForeignKey r u).allows c m _ ⟨⟨h, ht⟩, hu⟩
      ⟨key, hkey, hfits, rfl⟩
    exact ⟨k, d, (h.outcome_createForeignKey_named ht hu).trans hmade, hd⟩

/-- A table is made where there is none of its name. -/
theorem tracks_createTable (name : String) :
    Tracks (Catalog.Draws · s) (Edit.createTable s name)
      (fun m n => m.get? name = none ∧ n = m.insert name .empty) (DrawsWith s name) where
  leads := by
    intro c m h t d hmade
    have hfree := h.free_of_createTable hmade
    obtain ⟨t', d', hmade', ht, hd⟩ := h.createTable hfree
    obtain ⟨hsame, rfl⟩ := Prod.mk.inj (hmade.symm.trans hmade')
    cases hsame
    exact ⟨_, ⟨hfree, rfl⟩, hd, ht⟩
  allows := by
    rintro c m n h ⟨hfree, rfl⟩
    obtain ⟨t, d, hmade, ht, hd⟩ := h.createTable hfree
    exact ⟨t, d, hmade, hd, ht⟩

/-- A table is found where there is one of its name. -/
theorem tracks_getTable (view : Catalog → OrderedMap String TableShape → Prop)
    (hview : ∀ c m, view c m → c.Draws s m) (name : String) :
    Tracks view (Edit.getTable s name) (fun m n => (∃ sh, m.get? name = some sh) ∧ n = m)
      fun t c m => view c m ∧ c.findTable? s name = some t where
  leads := by
    intro c m h t d hfound
    obtain ⟨r, hr, hread⟩ := reads_getTable (c := c) s name
    obtain ⟨rfl, rfl⟩ := Prod.mk.inj (hr.symm.trans hfound)
    have ht := hread t rfl
    exact ⟨m, ⟨⟨_, (hview c m h).get?_eq ht⟩, rfl⟩, h, ht⟩
  allows := by
    rintro c m n h ⟨⟨sh, hname⟩, rfl⟩
    obtain ⟨t, ht, -⟩ := (hview c n h).find hname
    refine ⟨t, c, ?_, h, ht⟩
    show outcome (Edit.getTable s name) c = _
    simp [Edit.getTable, outcome_bind, ht]

end Draws
end Catalog
end SchemaSync
