import SchemaSync.Model.Assembly
import SchemaSync.Proofs.Catalog.Admission

/-!
# Drawing declarations

Each declared table is a list of strokes, read off the declaration alone (`Model.strokes`), and the two
passes over all declarations track these strokes and then the foreign keys.
-/

namespace SchemaSync

open Catalog

variable {α : Type} {s : SnapshotId} {t : TableId} {name : String} {x : Model}
  {m n : OrderedMap String TableShape}

/-- An edit is carried out. -/
theorem Tracks.edit {τ : Type} {pre : Catalog → τ → Prop} {e : Edit α} {R : τ → τ → Prop}
    {post : α → Catalog → τ → Prop} (h : Tracks pre e R post) : Tracks pre (Model.edit e) R post where
  leads := by
    intro c k hc v d hv
    have hpair : ((outcomeOf e c).1.mapError Model.Error.edit, (outcomeOf e c).2) = (.ok v, d) := hv
    obtain ⟨hresult, rfl⟩ := Prod.mk.inj hpair
    cases he : (outcomeOf e c).1 with
    | error y =>
        rw [he] at hresult
        cases hresult
    | ok w =>
        rw [he] at hresult
        cases hresult
        exact h.leads c k hc v _ (Prod.ext he rfl)
  allows := by
    intro c k l hc hR
    obtain ⟨v, d, hv, hd⟩ := h.allows c k l hc hR
    refine ⟨v, d, ?_, hd⟩
    show ((outcomeOf e c).1.mapError Model.Error.edit, (outcomeOf e c).2) = (.ok v, d)
    rw [hv]
    rfl

namespace Model

/-! ## The strokes of a declaration -/

def uniqueStroke (x : Model) (names : List String) : Stroke := .unique (names.map x.columnName)

def indexStroke (x : Model) (i : IndexDeclaration) : Stroke :=
  if i.unique then x.uniqueStroke i.columns
  else .index i.name (i.columns.map x.columnName) false

/-- The strokes of a declared table that follow its columns: primary key, unique constraints and indexes. -/
def laterStrokes (x : Model) : List Stroke :=
  Stroke.key 1 x.primaryKeyColumns ++ ((x.settings.uniqueTogether.getD []).map x.uniqueStroke ++
    (x.settings.indexes.getD []).map x.indexStroke)

/-- The strokes of a declared table, unless a field stands for no column. -/
def strokes (x : Model) : Except Error (List Stroke) :=
  (x.fields.values.mapM fieldColumn).map fun columns => columns.map .column ++ x.laterStrokes

theorem strokes_eq_ok_iff {sts : List Stroke} : x.strokes = .ok sts ↔
    ∃ columns, x.fields.values.mapM fieldColumn = .ok columns ∧
      sts = columns.map .column ++ x.laterStrokes := by
  unfold strokes
  cases x.fields.values.mapM fieldColumn with
  | error e => simp [Except.map]
  | ok columns => simp [Except.map, eq_comm]

theorem columnRefs_eq (x : Model) (names : List String) :
    x.columnRefs names = (names.map x.columnName).map .named := by
  rw [List.map_map]
  rfl

theorem tracks_addField (f : Field) :
    Tracks (DrawsWith s name t) (addField t f)
      (fun m n => ∃ spec, fieldColumn f = .ok spec ∧ (Stroke.column spec).Step name m n)
      fun _ => DrawsWith s name t :=
  Tracks.of_except fun spec _ => (Draws.tracks_createColumn spec).edit.discard

theorem tracks_addUnique (names : List String) :
    Tracks (DrawsWith s name t) (do let _ ← edit (Edit.createUnique t (x.columnRefs names)))
      ((x.uniqueStroke names).Step name) fun _ => DrawsWith s name t := by
  rw [columnRefs_eq]
  exact (Draws.tracks_createUnique _).edit.discard

theorem tracks_addIndex (i : IndexDeclaration) :
    Tracks (DrawsWith s name t) (x.addIndex t i) ((x.indexStroke i).Step name)
      fun _ => DrawsWith s name t := by
  unfold addIndex indexStroke
  cases i.unique with
  | true => exact tracks_addUnique i.columns
  | false =>
      rw [columnRefs_eq]
      exact (Draws.tracks_createIndex _ _ _).edit.discard

/-- A declared table is made where there is none of its name, stroke by stroke. -/
theorem tracks_addTable (x : Model) :
    Tracks (Catalog.Draws · s) (addTable s x)
      (fun m n => m.get? x.tableName = none ∧ ∃ sts, x.strokes = .ok sts ∧
        Moves (Stroke.Step x.tableName) sts (m.insert x.tableName .empty) n)
      fun _ => (Catalog.Draws · s) := by
  have hcolumns (t) : Tracks (DrawsWith s x.tableName t) (x.fields.values.forM (addField t)) _
      fun _ => DrawsWith s x.tableName t := Tracks.forM fun f _ => tracks_addField f
  have hkey (t) : Tracks (DrawsWith s x.tableName t) (edit (Edit.setPrimaryKey t _)) _
      fun _ => DrawsWith s x.tableName t := (Draws.tracks_setPrimaryKeyFrom x.primaryKeyColumns 1).edit
  have huniques (t) : Tracks (DrawsWith s x.tableName t) ((x.settings.uniqueTogether.getD []).forM _) _
      fun _ => DrawsWith s x.tableName t := Tracks.forM fun names _ => tracks_addUnique (x := x) names
  have hindexes (t) : Tracks (DrawsWith s x.tableName t)
      ((x.settings.indexes.getD []).forM (x.addIndex t)) _ fun _ => (Catalog.Draws · s) :=
    (Tracks.forM fun i _ => tracks_addIndex i).congr (fun _ _ _ _ => Iff.rfl) fun _ _ _ h => h.1
  have htable := (Draws.tracks_createTable (s := s) x.tableName).edit.bind fun t =>
    (hcolumns t).bind fun _ => (hkey t).bind fun _ => (huniques t).bind fun _ => hindexes t
  refine htable.congr (fun _ m n _ => ?_) fun _ _ _ => id
  rw [moves_exists_ok]
  constructor
  · rintro ⟨k, ⟨hfree, rfl⟩, l, ⟨columns, hcolumns, hmoves⟩, hlater⟩
    refine ⟨hfree, _, strokes_eq_ok_iff.mpr ⟨columns, hcolumns, rfl⟩, ?_⟩
    rw [moves_append, moves_map, laterStrokes, moves_append, moves_append, moves_map, moves_map]
    exact ⟨l, hmoves, hlater⟩
  · rintro ⟨hfree, sts, hsts, hmoves⟩
    obtain ⟨columns, hcolumns, rfl⟩ := strokes_eq_ok_iff.mp hsts
    rw [moves_append, moves_map, laterStrokes, moves_append, moves_append, moves_map, moves_map] at hmoves
    obtain ⟨l, hmoves, hlater⟩ := hmoves
    exact ⟨_, ⟨hfree, rfl⟩, l, ⟨columns, hcolumns, hmoves⟩, hlater⟩

end Model

/-! ## The foreign keys of a declaration -/

def Field.reference? (f : Field) : Option ForeignKeyDeclaration :=
  f.markers.findSome? fun
    | .references target column onDelete onUpdate => some
        { columns := [f.columnName]
          table := target.tableName
          foreignColumns := [column]
          onDelete := onDelete.getD Marker.defaultAction
          onUpdate := onUpdate.getD Marker.defaultAction }
    | _ => none

namespace ForeignKeyDeclaration

/-- What a declared foreign key asks for, where the tables have the shape `m`: without foreign columns it leads to
the primary key of its target. -/
def request (m : OrderedMap String TableShape) (d : ForeignKeyDeclaration) : KeyRequest where
  localColumns := d.columns
  foreignColumns :=
    if d.foreignColumns.isEmpty then ((m.get? d.table).map fun sh => sh.slots.inOrder).getD []
    else d.foreignColumns
  target := d.table
  onUpdate := d.onUpdate
  onDelete := d.onDelete

def Step (name : String) (d : ForeignKeyDeclaration) (m n : OrderedMap String TableShape) : Prop :=
  (d.request m).Step name m n

end ForeignKeyDeclaration

namespace Model

/-- A declared foreign key with the names of columns in the place of those of fields. -/
def declared (x : Model) (d : ForeignKeyDeclaration) : ForeignKeyDeclaration :=
  { d with columns := d.columns.map x.columnName }

/-- All foreign keys that a declaration asks for, those of its fields first. -/
def references (x : Model) : List ForeignKeyDeclaration :=
  x.fields.values.filterMap Field.reference? ++ (x.settings.foreignKeys.getD []).map x.declared

theorem addReference_eq (t : TableId) (f : Field) :
    addReference t f = match f.reference? with
      | none => pure ()
      | some d => edit (Edit.createForeignKey t ((d.request .empty).spec (.named d.table))) >>= fun _ =>
          pure () := by
  unfold addReference Field.reference?
  induction f.markers with
  | nil => rfl
  | cons k ks ih =>
      cases k with
      | references target column onDelete onUpdate => rfl
      | _ => exact ih

/-- A field names the column that it refers to, so what it asks for does not depend on the tables. -/
theorem request_of_reference? {f : Field} {d : ForeignKeyDeclaration} (h : f.reference? = some d)
    (m n : OrderedMap String TableShape) : d.request m = d.request n := by
  obtain ⟨k, -, hk⟩ := List.exists_of_findSome?_eq_some h
  cases k with
  | references target column onDelete onUpdate =>
      cases hk
      rfl
  | _ => cases hk

theorem tracks_addReference (f : Field) :
    Tracks (DrawsWith s name t) (addReference t f) (Moves (ForeignKeyDeclaration.Step name) f.reference?.toList)
      fun _ => DrawsWith s name t := by
  rw [addReference_eq]
  cases hd : f.reference? with
  | none => exact tracks_pure ()
  | some d =>
      rw [Option.toList_some, moves_singleton]
      refine (Draws.tracks_createForeignKey_named (d.request .empty)).edit.discard.congr (fun _ m n _ => ?_)
        fun _ _ _ => id
      rw [ForeignKeyDeclaration.Step, request_of_reference? hd m .empty]

/-- What is asked for where a shape is drawn: the primary key of the target is that of its shape. -/
theorem spec_declared {c : Catalog} {u : TableId} (h : c.Draws s m) (d : ForeignKeyDeclaration)
    (hu : c.findTable? s d.table = some u) : ((x.declared d).request m).spec (.handle u) =
      { target := .handle u
        localColumns := x.columnRefs d.columns
        foreignColumns := (if d.foreignColumns.isEmpty then columnNames (c.table u).primaryKey
          else d.foreignColumns).map .named
        onUpdate := d.onUpdate
        onDelete := d.onDelete } := by
  have hkey : (c.shapeOf (c.tables.get u)).slots.inOrder = columnNames (c.table u).primaryKey :=
    OrderedMap.inOrder_map Column.name _
  unfold declared ForeignKeyDeclaration.request KeyRequest.spec
  rw [h.get?_eq hu, Option.map_some, Option.getD_some, hkey, columnRefs_eq]

theorem tracks_addForeignKey (d : ForeignKeyDeclaration) :
    Tracks (DrawsWith s name t) (x.addForeignKey s t d) ((x.declared d).Step name)
      fun _ => DrawsWith s name t := by
  have hpoint (u : TableId) (c : Catalog) : Tracks
      (fun c' m => (DrawsWith s name t c' m ∧ c'.findTable? s d.table = some u) ∧ c' = c)
      (do let _ ← edit (Edit.createForeignKey t
        { target := .handle u
          localColumns := x.columnRefs d.columns
          foreignColumns := (if d.foreignColumns.isEmpty then columnNames (c.table u).primaryKey
            else d.foreignColumns).map .named
          onUpdate := d.onUpdate
          onDelete := d.onDelete }))
      ((x.declared d).Step name) fun _ => DrawsWith s name t := by
    refine Tracks.of_point fun _ m hc => ?_
    obtain ⟨⟨h, hu⟩, rfl⟩ := hc
    rw [← spec_declared h.1 d hu]
    refine ((Draws.tracks_createForeignKey _ u).restrict ?_).edit.discard.congr ?_ fun _ _ _ => id
    · rintro _ _ ⟨rfl, rfl⟩
      exact ⟨h, hu⟩
    · rintro _ _ n ⟨-, rfl⟩
      rfl
  have hfound := (Draws.tracks_getTable (DrawsWith s name t) (fun _ _ h => h.1) d.table).edit
  refine (hfound.bind fun u => Tracks.get_bind (hpoint u)).congr (fun c m n _ => ?_) fun _ _ _ => id
  constructor
  · rintro ⟨_, ⟨-, rfl⟩, hstep⟩
    exact hstep
  · rintro ⟨key, hkey, hfits, rfl⟩
    obtain ⟨-, -, -, -, htarget⟩ := KeyRequest.form?_eq_some_iff.mp hkey
    replace htarget : key.target = d.table := htarget
    obtain ⟨sh, hsh, -⟩ := hfits.foreignColumns
    exact ⟨m, ⟨⟨sh, htarget ▸ hsh⟩, rfl⟩, key, hkey, hfits, rfl⟩

/-- The foreign keys of a declared table are made where there is the table. -/
theorem tracks_addForeignKeys (x : Model) :
    Tracks (Catalog.Draws · s) (x.addForeignKeys s)
      (fun m n => (∃ sh, m.get? x.tableName = some sh) ∧
        Moves (ForeignKeyDeclaration.Step x.tableName) x.references m n)
      fun _ => (Catalog.Draws · s) := by
  have hreferences (t) : Tracks (DrawsWith s x.tableName t) (x.fields.values.forM (addReference t)) _
      fun _ => DrawsWith s x.tableName t := Tracks.forM fun f _ => tracks_addReference f
  have hdeclared (t) : Tracks (DrawsWith s x.tableName t)
      ((x.settings.foreignKeys.getD []).forM (x.addForeignKey s t)) _ fun _ => (Catalog.Draws · s) :=
    (Tracks.forM fun d _ => tracks_addForeignKey d).congr (fun _ _ _ _ => Iff.rfl) fun _ _ _ h => h.1
  have hfound := (Draws.tracks_getTable (Catalog.Draws · s) (fun _ _ => id) x.tableName).edit
  refine (hfound.bind fun t => (hreferences t).bind fun _ => hdeclared t).congr (fun _ m n _ => ?_)
    fun _ _ _ => id
  rw [references, moves_append, List.filterMap_eq_flatMap_toList, moves_flatMap, moves_map]
  constructor
  · rintro ⟨_, ⟨hname, rfl⟩, hmoves⟩
    exact ⟨hname, hmoves⟩
  · rintro ⟨hname, hmoves⟩
    exact ⟨m, ⟨hname, rfl⟩, hmoves⟩

end Model
end SchemaSync
