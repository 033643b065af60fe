import SchemaSync.Proofs.Rows.Groups
import SchemaSync.Proofs.Rows.KeyResult

/-!
# Foreign keys from rows

The rows of foreign keys are put together by key, and each key is entered or left out. Foreign keys change
neither columns nor primary keys, so what becomes of one of them does not depend on what became of the others:
all of them can be looked at on the shape at the start (`Rows.moves_keys_iff`), whatever the order in which
their rows come.

The main statement is `Rows.foreignKeys_reassembled`.
-/

namespace SchemaSync.Rows

open Catalog

variable {s : SnapshotId} {m n : OrderedMap String TableShape} {table : String} {number : Int}
  {rows : List ForeignKeyRow}

/-! ## Outcomes -/

/-- What has become of one foreign key of a table. -/
structure KeyOutcome where
  table : String
  number : Int
  result : Except Warning KeyForm

namespace KeyOutcome

def name (o : KeyOutcome) : String × Int := (o.table, o.number)

def key? (o : KeyOutcome) : Option KeyForm := o.result.toOption

def warning? (o : KeyOutcome) : Option Warning :=
  match o.result with
  | .ok _ => none
  | .error w => some w

def keysOn (os : List KeyOutcome) (table : String) : List KeyForm :=
  (os.filter fun o => o.table = table).filterMap key?

end KeyOutcome

def Sketch.enterAll (k : Sketch) (os : List KeyOutcome) : Sketch :=
  os.foldl (fun k o => k.enter o.table o.result) k

theorem warnings_enterAll (k : Sketch) (os : List KeyOutcome) :
    (k.enterAll os).warnings = k.warnings ++ os.filterMap KeyOutcome.warning? := by
  induction os generalizing k with
  | nil => exact (List.append_nil _).symm
  | cons o os ih =>
      have hrest : (k.enterAll (o :: os)).warnings = _ := ih (k.enter o.table o.result)
      rw [hrest, List.filterMap_cons]
      cases hresult : o.result with
      | ok key => simp [Sketch.enter, KeyOutcome.warning?, hresult]
      | error w => simp [Sketch.enter, KeyOutcome.warning?, hresult]

/-- What becomes of a foreign key changes the foreign keys of its table, if anything. -/
theorem shape_enter (k : Sketch) (o : KeyOutcome) : (k.enter o.table o.result).shape =
    k.shape.update o.table (.addForeignKeys o.key?.toList) := by
  unfold KeyOutcome.key?
  cases o.result with
  | ok key => rfl
  | error w =>
      show k.shape = k.shape.update o.table (.addForeignKeys [])
      rw [TableShape.addForeignKeys_nil, OrderedMap.update_id]

theorem shape_enterAll (k : Sketch) (os : List KeyOutcome) : (k.enterAll os).shape =
    os.foldl (fun m o => m.update o.table (.addForeignKeys o.key?.toList)) k.shape := by
  induction os generalizing k with
  | nil => rfl
  | cons o os ih =>
      rw [List.foldl_cons, ← shape_enter]
      exact ih (k.enter o.table o.result)

theorem keys_enterAll (k : Sketch) (os : List KeyOutcome) : (k.enterAll os).shape.keys = k.shape.keys := by
  rw [shape_enterAll, OrderedMap.keys_foldl_update]

/-- A table has its foreign keys that were made, after the ones that were there. -/
theorem get?_enterAll (k : Sketch) (os : List KeyOutcome) (table : String) : (k.enterAll os).shape.get? table =
    (k.shape.get? table).map (.addForeignKeys (KeyOutcome.keysOn os table)) := by
  rw [shape_enterAll, OrderedMap.get?_foldl_update, KeyOutcome.keysOn, List.filterMap_eq_flatMap_toList]
  simp only [TableShape.foldl_addForeignKeys]

theorem sameColumns_enter (k : Sketch) (o : KeyOutcome) : SameColumns k.shape (k.enter o.table o.result).shape := by
  rw [shape_enter]
  exact sameColumns_update k.shape o.table _

/-- Foreign keys do not get into each other's way. -/
theorem moves_keys_iff {gs : List ((String × Int) × List ForeignKeyRow)} {k l : Sketch} :
    Moves KeyStep gs k l ↔ ∃ os : List KeyOutcome,
      List.Forall₂ (fun g o => o.name = g.1 ∧ (∃ sh, k.shape.get? o.table = some sh) ∧
        KeyResult k.shape o.table o.number g.2 o.result) gs os ∧ l = k.enterAll os := by
  -- A foreign key changes no columns, so the shape at the start tells what becomes of every later one.
  suffices ∀ k', SameColumns k.shape k'.shape → (Moves KeyStep gs k' l ↔ ∃ os : List KeyOutcome,
      List.Forall₂ (fun g o => o.name = g.1 ∧ (∃ sh, k.shape.get? o.table = some sh) ∧
        KeyResult k.shape o.table o.number g.2 o.result) gs os ∧ l = k'.enterAll os) from this k fun _ => rfl
  induction gs with
  | nil =>
      intro k' _
      simp [Moves, Sketch.enterAll]
  | cons g gs ih =>
      obtain ⟨name, rows⟩ := g
      intro k' hk
      have hnext (o : KeyOutcome) : SameColumns k.shape (k'.enter o.table o.result).shape :=
        fun name => (hk name).trans (sameColumns_enter k' o name)
      constructor
      · rintro ⟨_, ⟨hname, result, hresult, rfl⟩, hrest⟩
        obtain ⟨os, hos, rfl⟩ := (ih _ (hnext ⟨name.1, name.2, result⟩)).mp hrest
        refine ⟨⟨name.1, name.2, result⟩ :: os, .cons ⟨rfl, ?_, hresult.congr_all hk.symm⟩ hos, rfl⟩
        obtain ⟨sh, hsh⟩ := hname
        obtain ⟨other, hother, -⟩ := (hk.symm.table _).get? hsh
        exact ⟨other, hother⟩
      · rintro ⟨_, hos, rfl⟩
        obtain ⟨o, os, ⟨hname, ⟨sh, hsh⟩, hresult⟩, hrest, rfl⟩ := List.forall₂_cons_left_iff.mp hos
        obtain rfl : o.name = name := hname
        obtain ⟨other, hother, -⟩ := (hk.table _).get? hsh
        exact ⟨_, ⟨⟨other, hother⟩, o.result, hresult.congr_all hk, rfl⟩,
          (ih _ (hnext o)).mpr ⟨os, hrest, rfl⟩⟩

/-! ## All keys -/

def keyGroups (rows : List ForeignKeyRow) : List ((String × Int) × List ForeignKeyRow) :=
  orderedGroups (fun r => (r.table, r.key)) ForeignKeyRow.position rows

theorem tracks_addForeignKeys (rows : List ForeignKeyRow) :
    Tracks (Sketched (Catalog.Draws · s)) (addForeignKeys s rows) (Moves KeyStep (keyGroups rows))
      fun _ => Sketched (Catalog.Draws · s) := by
  have hrun : addForeignKeys s rows = (keyGroups rows).forM fun g => addForeignKey s g.1.1 g.1.2 g.2 :=
    forM_groupBy (fun (name : String × Int) rows => addForeignKey s name.1 name.2 rows) rows
  rw [hrun]
  refine Tracks.forM fun g hg => ?_
  obtain ⟨first, rest, hrows⟩ := List.exists_cons_of_ne_nil (ne_nil_of_mem_orderedGroups hg)
  obtain ⟨name, rows⟩ := g
  obtain rfl : rows = first :: rest := hrows
  exact tracks_addForeignKey name.1 name.2 first rest

/-- The outcomes of groups go by the names of these. -/
theorem map_name_eq {Q : (String × Int) × List ForeignKeyRow → KeyOutcome → Prop}
    {gs : List ((String × Int) × List ForeignKeyRow)} {os : List KeyOutcome}
    (h : List.Forall₂ (fun g o => o.name = g.1 ∧ Q g o) gs os) : os.map KeyOutcome.name = gs.map Prod.fst := by
  induction h with
  | nil => rfl
  | cons hfirst _ ih => rw [List.map_cons, List.map_cons, hfirst.1, ih]

/-- The rows of a foreign key come to a result where their local columns are there and their actions are known. -/
theorem exists_keyResult (hne : rows ≠ []) (hlocal : HasColumns m table (rows.map ForeignKeyRow.localColumn))
    (hactions : ∀ r ∈ rows, (∃ a : Action, a.keyword = r.onUpdate) ∧ ∃ a : Action, a.keyword = r.onDelete) :
    ∃ result, KeyResult m table number rows result := by
  obtain ⟨first, rest, rfl⟩ := List.exists_cons_of_ne_nil hne
  obtain ⟨⟨onUpdate, hupdate⟩, onDelete, hdelete⟩ := hactions first List.mem_cons_self
  cases htarget : m.get? first.target with
  | none => exact ⟨_, .targetMissing htarget⟩
  | some sh =>
      by_cases hcolumns : ∃ columns, LeadTo sh (first :: rest) columns
      · obtain ⟨columns, hcolumns⟩ := hcolumns
        have htell : Tell m table first rest ⟨(first :: rest).map ForeignKeyRow.localColumn, columns, first.target,
          onUpdate, onDelete⟩ := ⟨rfl, hlocal, rfl, ⟨sh, htarget, hcolumns⟩, hupdate, hdelete⟩
        cases hrules : KeyForm.violations ⟨(first :: rest).map ForeignKeyRow.localColumn, columns, first.target,
          onUpdate, onDelete⟩ table with
        | nil => exact ⟨_, .made htell hrules⟩
        | cons v vs => exact ⟨_, .unsupported htell hrules⟩
      · exact ⟨_, .columnsMissing htarget fun columns h => hcolumns ⟨columns, h⟩⟩

/-- **Foreign keys put together from their rows**: from rows that name tables and columns of the snapshot and known
actions, at different positions within a key, every key comes to one result: the foreign key that its rows tell of
in the order of their positions, or one warning that says why it is left out. So the assembly goes through, the
tables have the foreign keys that were made after the ones they had, and are else as they were. In whatever order
the rows come, the results are the same but for their order. -/
theorem foreignKeys_reassembled {columns : List ColumnRow} {d : Draft} (hbuilt : BuiltFrom columns s d)
    (hcolumns : ∀ r ∈ rows, ∃ q ∈ columns, q.table = r.table ∧ q.column = r.localColumn)
    (hactions : ∀ r ∈ rows, (∃ a : Action, a.keyword = r.onUpdate) ∧ ∃ a : Action, a.keyword = r.onDelete)
    (hpositions : rows.Pairwise fun r q => (r.table, r.key) = (q.table, q.key) → r.position ≠ q.position) :
    ∃ os : List KeyOutcome,
      (∀ o ∈ os, ∃ ordered, ordered.Perm (rows.filter fun r => (r.table, r.key) = o.name) ∧
        ordered.Pairwise (fun r q => r.position < q.position) ∧
        KeyResult (d.catalog.snapshot s).shape o.table o.number ordered o.result) ∧
      ∀ shuffled, shuffled.Perm rows → ∃ order e, order.Perm os ∧
        order.map KeyOutcome.name = groupKeys (fun r => (r.table, r.key)) shuffled ∧
        outcomeOf (addForeignKeys s shuffled) d = (.ok (), e) ∧
        e.warnings = d.warnings ++ order.filterMap KeyOutcome.warning? ∧
        (e.catalog.snapshot s).shape.keys = (d.catalog.snapshot s).shape.keys ∧
        ∀ table, (e.catalog.snapshot s).shape.get? table =
          ((d.catalog.snapshot s).shape.get? table).map (.addForeignKeys (KeyOutcome.keysOn order table)) := by
  have hmember {g : (String × Int) × List ForeignKeyRow} (hg : g ∈ keyGroups rows) :
      ∀ r ∈ g.2, r ∈ rows ∧ (r.table, r.key) = g.1 := by
    intro r hr
    simpa using (mem_of_mem_orderedGroups hg).mem_iff.mp hr
  -- Every group comes to a result on the shape at the start.
  obtain ⟨os, hos⟩ : ∃ os : List KeyOutcome, List.Forall₂ (fun g o => o.name = g.1 ∧
      (∃ sh, (d.catalog.snapshot s).shape.get? o.table = some sh) ∧
      KeyResult (d.catalog.snapshot s).shape o.table o.number g.2 o.result) (keyGroups rows) os := by
    refine exists_forall₂ fun g hg => ?_
    obtain ⟨name, group⟩ := g
    have hne : group ≠ [] := ne_nil_of_mem_orderedGroups hg
    have hcolumn : ∀ r ∈ group, ∃ q ∈ columns, q.table = name.1 ∧ q.column = r.localColumn := by
      intro r hr
      obtain ⟨hmem, hname⟩ := hmember hg r hr
      obtain ⟨q, hq, htable, hcolumn⟩ := hcolumns r hmem
      exact ⟨q, hq, htable.trans (congrArg Prod.fst hname), hcolumn⟩
    have hlocal : HasColumns (d.catalog.snapshot s).shape name.1 (group.map ForeignKeyRow.localColumn) := by
      obtain ⟨r, hr⟩ := List.exists_mem_of_ne_nil _ hne
      obtain ⟨q, hq, htable, -⟩ := hcolumn r hr
      exact hbuilt.hasColumns ⟨q, hq, htable⟩ (List.forall_mem_map.mpr hcolumn)
    obtain ⟨result, hresult⟩ : ∃ result, KeyResult _ name.1 name.2 group result :=
      exists_keyResult hne hlocal fun r hr => hactions r (hmember hg r hr).1
    obtain ⟨sh, hsh, -⟩ := hlocal
    exact ⟨⟨name.1, name.2, result⟩, rfl, ⟨sh, hsh⟩, hresult⟩
  refine ⟨os, fun o ho => ?_, fun shuffled hperm => ?_⟩
  · obtain ⟨g, hg, hanswer⟩ := exists_mem_of_forall₂ hos o ho
    obtain ⟨hname, -, hresult⟩ := hanswer
    rw [hname]
    exact ⟨g.2, mem_of_mem_orderedGroups hg, ApartInGroups.pairwise hpositions hg, hresult⟩
  · obtain ⟨order, horder, hsame⟩ :=
      List.perm_comp_forall₂ (ApartInGroups.perm_orderedGroups hpositions hperm) hos
    obtain ⟨v, e, hrun, hdraws, hwarnings⟩ := (tracks_addForeignKeys shuffled).allows d
      ⟨(d.catalog.snapshot s).shape, d.warnings⟩ _ ⟨hbuilt.draws, rfl⟩ (moves_keys_iff.mpr ⟨order, horder, rfl⟩)
    refine ⟨order, e, hsame, ?_, hrun, ?_, ?_, fun table => ?_⟩
    · exact (map_name_eq horder).trans (map_fst_orderedGroups shuffled)
    · rw [hwarnings, warnings_enterAll]
    · rw [hdraws.shape, keys_enterAll]
    · rw [hdraws.shape, get?_enterAll]

def mixedColumns : List ColumnRow :=
  [⟨"users", "x", "INTEGER", 1, 1, none⟩, ⟨"users", "y", "INTEGER", 2, 1, none⟩,
    ⟨"posts", "a", "INTEGER", 0, 0, none⟩, ⟨"posts", "b", "TEXT", 0, 0, none⟩]

/-- A key over two columns whose rows stand apart and in reverse, the second without its target column, among keys
to a missing table, to a missing column and to the table itself. -/
def mixedKeys : List ForeignKeyRow :=
  [⟨"posts", 1, 0, "gone", "a", none, "NO ACTION", "NO ACTION"⟩,
    ⟨"posts", 0, 1, "users", "b", none, "CASCADE", "NO ACTION"⟩,
    ⟨"posts", 2, 0, "users", "a", some "z", "NO ACTION", "NO ACTION"⟩,
    ⟨"posts", 0, 0, "users", "a", some "x", "CASCADE", "NO ACTION"⟩,
    ⟨"posts", 3, 0, "posts", "a", some "b", "NO ACTION", "NO ACTION"⟩]

theorem foreignKeys_reassembled_mixed : ∃ (s : SnapshotId) (d e : Draft) (order : List KeyOutcome),
    BuiltFrom mixedColumns s d ∧ outcomeOf (addForeignKeys s mixedKeys) d = (.ok (), e) ∧
      order.map KeyOutcome.name = [("posts", 1), ("posts", 0), ("posts", 2), ("posts", 3)] ∧
      (∀ o ∈ order, ∃ ordered, ordered.Perm (mixedKeys.filter fun r => (r.table, r.key) = o.name) ∧
        ordered.Pairwise (fun r q => r.position < q.position) ∧
        KeyResult (d.catalog.snapshot s).shape o.table o.number ordered o.result) ∧
      e.warnings = d.warnings ++ order.filterMap KeyOutcome.warning? ∧
      (e.catalog.snapshot s).shape.keys = (d.catalog.snapshot s).shape.keys ∧
      ∀ table, (e.catalog.snapshot s).shape.get? table =
        ((d.catalog.snapshot s).shape.get? table).map (.addForeignKeys (KeyOutcome.keysOn order table)) := by
  obtain ⟨s, d, hbuilt⟩ : ∃ s d, BuiltFrom mixedColumns s d := ⟨_, _, rfl⟩
  have hcolumns : ∀ r ∈ mixedKeys, ∃ q ∈ mixedColumns, q.table = r.table ∧ q.column = r.localColumn := by decide
  have htexts : ∀ r ∈ mixedKeys, (r.onUpdate = "NO ACTION" ∨ r.onUpdate = "CASCADE") ∧ r.onDelete = "NO ACTION" := by
    decide
  have hactions : ∀ r ∈ mixedKeys, (∃ a : Action, a.keyword = r.onUpdate) ∧ ∃ a : Action, a.keyword = r.onDelete := by
    intro r hr
    obtain ⟨hupdate, hdelete⟩ := htexts r hr
    refine ⟨?_, .noAction, hdelete.symm⟩
    rcases hupdate with hupdate | hupdate
    · exact ⟨.noAction, hupdate.symm⟩
    · exact ⟨.cascade, hupdate.symm⟩
  obtain ⟨os, hresults, hrun⟩ := foreignKeys_reassembled hbuilt hcolumns hactions (by decide)
  obtain ⟨order, e, hperm, hnames, hdone, hkept⟩ := hrun mixedKeys (.refl _)
  exact ⟨s, d, e, order, hbuilt, hdone, hnames.trans (by decide), fun o ho => hresults o (hperm.subset ho), hkept⟩

end SchemaSync.Rows
