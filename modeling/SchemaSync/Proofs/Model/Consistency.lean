import SchemaSync.Proofs.Diff.Planning
import SchemaSync.Proofs.Model.Drawing
import SchemaSync.Push

/-!
# Declarations that describe a schema

Declarations describe a schema exactly if they are consistent: each table can be drawn on its own, no name of
a table or of an index is given twice, and each foreign key fits the tables without foreign keys
(`Model.schema_eq_ok_iff`). The schema has the shape that can be read off the declarations then
(`Model.draws_schema`), and it is verified and without unique indexes: primary keys are numbered from 1 on, and
unique indexes are made as constraints (`Model.verify_schema`).
-/

namespace SchemaSync

open Catalog

variable {x y : Model} {xs : List Model} {m n : OrderedMap String TableShape} {name : String}

/-! ## Declared foreign keys -/

/-- What a declared foreign key asks for depends on the primary key of its target. -/
theorem SameColumnsAt.request {d : ForeignKeyDeclaration} (h : SameColumnsAt m n d.table) :
    d.request m = d.request n := by
  have hkey : (m.get? d.table).map (fun sh => sh.slots.inOrder) =
      (n.get? d.table).map fun sh => sh.slots.inOrder := by
    have hslots := congrArg (Option.map fun p => p.2.inOrder) h
    rwa [Option.map_map, Option.map_map] at hslots
  unfold ForeignKeyDeclaration.request
  rw [hkey]

theorem SameColumns.request (h : SameColumns m n) (d : ForeignKeyDeclaration) : d.request m = d.request n :=
  (h.table d.table).request

namespace ForeignKeyDeclaration

/-- A declared foreign key fits the tables of a shape. -/
def Fits (m : OrderedMap String TableShape) (name : String) (d : ForeignKeyDeclaration) : Prop :=
  ∃ key, (d.request m).form? = some key ∧ key.Fits m name

def forms (m : OrderedMap String TableShape) (ds : List ForeignKeyDeclaration) : List KeyForm :=
  ds.filterMap fun d => (d.request m).form?

theorem target_eq {d : ForeignKeyDeclaration} {key : KeyForm} (h : (d.request m).form? = some key) :
    key.target = d.table := by
  obtain ⟨-, -, -, -, htarget⟩ := KeyRequest.form?_eq_some_iff.mp h
  exact htarget

theorem Fits.congr {d : ForeignKeyDeclaration} (h : d.Fits m name) (hname : SameColumnsAt m n name)
    (htarget : SameColumnsAt m n d.table) : d.Fits n name := by
  obtain ⟨key, hkey, hfits⟩ := h
  exact ⟨key, htarget.request ▸ hkey, hname.fits (target_eq hkey ▸ htarget) hfits⟩

theorem fits_congr (h : SameColumns m n) {d : ForeignKeyDeclaration} : d.Fits m name ↔ d.Fits n name :=
  ⟨fun hfits => hfits.congr (h.table _) (h.table _), fun hfits => hfits.congr (h.symm.table _) (h.symm.table _)⟩

theorem forms_congr (h : SameColumns m n) (ds : List ForeignKeyDeclaration) : forms m ds = forms n ds := by
  unfold forms
  simp only [h.request]

/-- Foreign keys do not get into each other's way. -/
theorem moves_iff {ds : List ForeignKeyDeclaration} : Moves (Step name) ds m n ↔
    (∀ d ∈ ds, d.Fits m name) ∧ n = m.update name (.addForeignKeys (forms m ds)) := by
  induction ds generalizing m with
  | nil =>
      have hnone : m.update name (.addForeignKeys []) = m := by
        rw [TableShape.addForeignKeys_nil, OrderedMap.update_id]
      simp [Moves, forms, hnone]
  | cons d ds ih =>
      -- The later declarations ask for columns, which the first foreign key leaves as they are.
      have hrest (key : KeyForm) := sameColumns_update m name [key]
      have hforms {key : KeyForm} (hkey : (d.request m).form? = some key) :
          forms m (d :: ds) = key :: forms m ds := List.filterMap_cons_some hkey
      rw [List.forall_mem_cons]
      constructor
      · rintro ⟨_, ⟨key, hkey, hfits, rfl⟩, hmoves⟩
        obtain ⟨hds, rfl⟩ := ih.mp hmoves
        refine ⟨⟨⟨key, hkey, hfits⟩, fun e he => (fits_congr (hrest key)).mpr (hds e he)⟩, ?_⟩
        rw [hforms hkey, OrderedMap.update_update, forms_congr (hrest key)]
        congr 1
        funext sh
        exact TableShape.addForeignKeys_addForeignKeys [key] _ sh
      · rintro ⟨⟨⟨key, hkey, hfits⟩, hds⟩, rfl⟩
        refine ⟨_, ⟨key, hkey, hfits, rfl⟩, ih.mpr ⟨fun e he => (fits_congr (hrest key)).mp (hds e he), ?_⟩⟩
        rw [hforms hkey]
        show _ = (m.update name (.addForeignKeys [key])).update name
          (.addForeignKeys (forms (m.update name (.addForeignKeys [key])) ds))
        rw [OrderedMap.update_update, ← forms_congr (hrest key)]
        congr 1
        funext sh
        exact (TableShape.addForeignKeys_addForeignKeys [key] _ sh).symm

end ForeignKeyDeclaration

namespace Model

/-! ## The first pass -/

def drawing (x : Model) : TableShape :=
  match x.strokes with
  | .ok sts => sts.foldl Stroke.draw .empty
  | .error _ => .empty

/-- A declared table can be drawn, as far as it goes by itself. -/
def Drawable (x : Model) : Prop :=
  ∃ sts, x.strokes = .ok sts ∧ Stroke.FitAll (fun _ => False) .empty sts

/-- Two declared tables have neither their names nor the name of an index in common. -/
def Apart (x y : Model) : Prop :=
  x.tableName ≠ y.tableName ∧
    ∀ i, x.drawing.indexes.contains i = true → y.drawing.indexes.contains i = false

theorem Apart.symm (h : x.Apart y) : y.Apart x := by
  refine ⟨h.1.symm, fun i hi => ?_⟩
  by_contra hx
  rw [Bool.not_eq_false] at hx
  rw [h.2 i hx] at hi
  cases hi

/-- There is room for a declared table beside the tables of a shape. -/
structure Room (m : OrderedMap String TableShape) (x : Model) : Prop where
  table : m.get? x.tableName = none
  indexes : ∀ key other, m.get? key = some other →
    ∀ i, other.indexes.contains i = true → x.drawing.indexes.contains i = false

theorem room_empty (x : Model) : Room .empty x := ⟨rfl, by rintro key other ⟨⟩⟩

theorem room_insert (h : Room m x) : Room (m.insert x.tableName x.drawing) y ↔ Room m y ∧ x.Apart y := by
  have hself : (m.insert x.tableName x.drawing).get? x.tableName = some x.drawing := by
    rw [OrderedMap.get?_insert, if_pos rfl]
  have hother : ∀ key, x.tableName ≠ key → (m.insert x.tableName x.drawing).get? key = m.get? key := by
    intro key hkey
    rw [OrderedMap.get?_insert, if_neg hkey]
  constructor
  · intro hy
    have hne : x.tableName ≠ y.tableName := by
      intro hsame
      have htable := hy.table
      rw [← hsame, hself] at htable
      cases htable
    refine ⟨⟨(hother _ hne) ▸ hy.table, fun key other hkey => ?_⟩, hne, hy.indexes _ _ hself⟩
    have hkey' : x.tableName ≠ key := by
      rintro rfl
      rw [h.table] at hkey
      cases hkey
    exact hy.indexes key other ((hother key hkey').trans hkey)
  · rintro ⟨hy, hne, hindexes⟩
    refine ⟨(hother _ hne).trans hy.table, fun key other hkey => ?_⟩
    by_cases hsame : x.tableName = key
    · rw [← hsame, hself] at hkey
      cases hkey
      exact hindexes
    · exact hy.indexes key other ((hother key hsame) ▸ hkey)

theorem drawing_eq {sts : List Stroke} (h : x.strokes = .ok sts) :
    x.drawing = sts.foldl Stroke.draw .empty := by
  unfold drawing
  rw [h]

/-- A declared table is drawn where there is room for it. -/
theorem moves_strokes_iff :
    (m.get? x.tableName = none ∧ ∃ sts, x.strokes = .ok sts ∧
      Moves (Stroke.Step x.tableName) sts (m.insert x.tableName .empty) n) ↔
        x.Drawable ∧ Room m x ∧ n = m.insert x.tableName x.drawing := by
  have hempty : (m.insert x.tableName .empty).get? x.tableName = some .empty := by
    rw [OrderedMap.get?_insert, if_pos rfl]
  have hmoves {sts : List Stroke} (hsts : x.strokes = .ok sts) :
      Moves (Stroke.Step x.tableName) sts (m.insert x.tableName .empty) n ↔
        (Stroke.FitAll (fun _ => False) .empty sts ∧
          ∀ i, x.drawing.indexes.contains i = true → ¬ Taken m x.tableName i) ∧
        n = m.insert x.tableName x.drawing := by
    rw [Stroke.moves_iff hempty, taken_insert, OrderedMap.insert_insert, Stroke.fitAll_iff, drawing_eq hsts]
    simp only [Stroke.contains_indexes_foldl_draw]
    simp [TableShape.empty, OrderedMap.contains]
  constructor
  · rintro ⟨hfree, sts, hsts, hdone⟩
    obtain ⟨⟨hfits, htaken⟩, rfl⟩ := (hmoves hsts).mp hdone
    refine ⟨⟨sts, hsts, hfits⟩, ⟨hfree, fun key other hkey i hi => ?_⟩, rfl⟩
    by_contra hx
    rw [Bool.not_eq_false] at hx
    refine htaken i hx ⟨key, other, ?_, hkey, hi⟩
    rintro rfl
    rw [hfree] at hkey
    cases hkey
  · rintro ⟨⟨sts, hsts, hfits⟩, hroom, rfl⟩
    refine ⟨hroom.table, sts, hsts, (hmoves hsts).mpr ⟨⟨hfits, fun i hi => ?_⟩, rfl⟩⟩
    rintro ⟨key, other, -, hkey, hother⟩
    rw [hroom.indexes key other hkey i hother] at hi
    cases hi

/-- The shapes of tables with some declared ones behind them. -/
def outlineOn (m : OrderedMap String TableShape) (xs : List Model) : OrderedMap String TableShape :=
  xs.foldl (fun m x => m.insert x.tableName x.drawing) m

/-- The first pass goes through if each table can be drawn, there is room for it, and no two of them are in each
other's way. -/
theorem moves_tables_iff :
    Moves (fun x m n => x.Drawable ∧ Room m x ∧ n = m.insert x.tableName x.drawing) xs m n ↔
      (∀ x ∈ xs, x.Drawable) ∧ (∀ x ∈ xs, Room m x) ∧ xs.Pairwise Apart ∧ n = outlineOn m xs := by
  induction xs generalizing m with
  | nil => simp [Moves, outlineOn]
  | cons x xs ih =>
      rw [List.forall_mem_cons, List.forall_mem_cons, List.pairwise_cons]
      constructor
      · rintro ⟨_, ⟨hdrawable, hroom, rfl⟩, hrest⟩
        obtain ⟨hdrawables, hrooms, hapart, rfl⟩ := ih.mp hrest
        have hsplit := fun y hy => (room_insert hroom).mp (hrooms y hy)
        exact ⟨⟨hdrawable, hdrawables⟩, ⟨hroom, fun y hy => (hsplit y hy).1⟩,
          ⟨fun y hy => (hsplit y hy).2, hapart⟩, rfl⟩
      · rintro ⟨⟨hdrawable, hdrawables⟩, ⟨hroom, hrooms⟩, ⟨hfirst, hapart⟩, rfl⟩
        refine ⟨_, ⟨hdrawable, hroom, rfl⟩, ih.mpr ⟨hdrawables, fun y hy => ?_, hapart, rfl⟩⟩
        exact (room_insert hroom).mpr ⟨hrooms y hy, hfirst y hy⟩

/-! ## The second pass -/

/-- A table is there, and its declared foreign keys fit. -/
def Refers (m : OrderedMap String TableShape) (x : Model) : Prop :=
  (∃ sh, m.get? x.tableName = some sh) ∧ ∀ d ∈ x.references, d.Fits m x.tableName

theorem refers_congr (h : SameColumns m n) : Refers m x ↔ Refers n x := by
  have hfound {m n} (h : SameColumns m n) :
      (∃ sh, m.get? x.tableName = some sh) → ∃ sh, n.get? x.tableName = some sh := by
    rintro ⟨sh, hsh⟩
    obtain ⟨other, hother, -⟩ := (h.table _).get? hsh
    exact ⟨other, hother⟩
  unfold Refers
  simp only [ForeignKeyDeclaration.fits_congr h]
  exact and_congr_left fun _ => ⟨hfound h, hfound h.symm⟩

def keys (m : OrderedMap String TableShape) (x : Model) : List KeyForm :=
  ForeignKeyDeclaration.forms m x.references

/-- The second pass goes through if all foreign keys fit. -/
theorem moves_references_iff : Moves (fun x m n => (∃ sh, m.get? x.tableName = some sh) ∧
      Moves (ForeignKeyDeclaration.Step x.tableName) x.references m n) xs m n ↔
    (∀ x ∈ xs, Refers m x) ∧
      n = xs.foldl (fun n x => n.update x.tableName (.addForeignKeys (x.keys m))) m := by
  -- A foreign key changes no columns, so the shapes at the start tell what fits at every later table.
  suffices ∀ k, SameColumns m k → (Moves (fun x m n => (∃ sh, m.get? x.tableName = some sh) ∧
      Moves (ForeignKeyDeclaration.Step x.tableName) x.references m n) xs k n ↔
    (∀ x ∈ xs, Refers m x) ∧
      n = xs.foldl (fun n x => n.update x.tableName (.addForeignKeys (x.keys m))) k) from
    this m fun _ => rfl
  induction xs with
  | nil =>
      intro k _
      simp [Moves]
  | cons x xs ih =>
      intro k hk
      have hstep : ∀ l, ((∃ sh, k.get? x.tableName = some sh) ∧
          Moves (ForeignKeyDeclaration.Step x.tableName) x.references k l) ↔
            Refers m x ∧ l = k.update x.tableName (.addForeignKeys (x.keys m)) := by
        intro l
        rw [ForeignKeyDeclaration.moves_iff, ← ForeignKeyDeclaration.forms_congr hk, ← and_assoc]
        exact and_congr_left fun _ => (refers_congr hk).symm
      have hnext := fun name keys key =>
        (hk key).trans (sameColumns_update k name keys key)
      rw [List.forall_mem_cons]
      constructor
      · rintro ⟨l, hl, hrest⟩
        obtain ⟨hx, rfl⟩ := (hstep l).mp hl
        obtain ⟨hxs, rfl⟩ := (ih _ (hnext _ _)).mp hrest
        exact ⟨⟨hx, hxs⟩, rfl⟩
      · rintro ⟨⟨hx, hxs⟩, rfl⟩
        exact ⟨_, (hstep _).mpr ⟨hx, rfl⟩, (ih _ (hnext _ _)).mpr ⟨hxs, rfl⟩⟩

/-! ## Both passes -/

/-- The shapes of declared tables without their foreign keys. -/
def outline (xs : List Model) : OrderedMap String TableShape := outlineOn .empty xs

def shapes (xs : List Model) : OrderedMap String TableShape :=
  xs.foldl (fun n x => n.update x.tableName (.addForeignKeys (x.keys (outline xs)))) (outline xs)

/-- Declared tables each of which can be drawn, with no name given twice and with foreign keys that fit. -/
structure Consistent (xs : List Model) : Prop where
  drawable : ∀ x ∈ xs, x.Drawable
  apart : xs.Pairwise Apart
  references : ∀ x ∈ xs, ∀ d ∈ x.references, d.Fits (outline xs) x.tableName

def chosen (start : Option String) (models : List Model) : List Model :=
  models.filter fun x => Selection.isChosen start x.tableName

theorem nodup_tableNames (h : xs.Pairwise Apart) : (xs.map tableName).Nodup :=
  List.pairwise_map.mpr (h.imp fun hapart => hapart.1)

theorem outline_eq (xs : List Model) : outline xs = .ofList (xs.map fun x => (x.tableName, x.drawing)) := by
  unfold outline outlineOn OrderedMap.ofList
  rw [List.foldl_map]

theorem entries_outline (h : xs.Pairwise Apart) :
    (outline xs).entries = xs.map fun x => (x.tableName, x.drawing) := by
  rw [outline_eq]
  apply OrderedMap.entries_ofList
  rw [List.map_map]
  exact nodup_tableNames h

theorem get?_outline (h : xs.Pairwise Apart) (hx : x ∈ xs) :
    (outline xs).get? x.tableName = some x.drawing := by
  rw [← OrderedMap.mem_entries_iff_get?, entries_outline h]
  exact List.mem_map_of_mem hx

theorem keys_shapes (h : xs.Pairwise Apart) : (shapes xs).keys = xs.map tableName := by
  unfold shapes
  rw [OrderedMap.keys_foldl_update, OrderedMap.keys, entries_outline h, List.map_map]
  rfl

theorem get?_shapes (h : xs.Pairwise Apart) (hx : x ∈ xs) :
    (shapes xs).get? x.tableName = some (x.drawing.addForeignKeys (x.keys (outline xs))) := by
  unfold shapes
  rw [OrderedMap.get?_foldl_update_of_mem (nodup_tableNames h) hx, get?_outline h hx, Option.map_some]

/-- The tables of consistent declarations are those that are declared, each with its foreign keys. -/
theorem get?_shapes_eq_some_iff (h : xs.Pairwise Apart) {sh : TableShape} : (shapes xs).get? name = some sh ↔
    ∃ x ∈ xs, x.tableName = name ∧ x.drawing.addForeignKeys (x.keys (outline xs)) = sh := by
  constructor
  · intro hname
    have hmem := OrderedMap.mem_keys_iff.mpr ⟨sh, hname⟩
    rw [keys_shapes h] at hmem
    obtain ⟨x, hx, rfl⟩ := List.mem_map.mp hmem
    exact ⟨x, hx, rfl, Option.some.inj ((get?_shapes h hx).symm.trans hname)⟩
  · rintro ⟨x, hx, rfl, rfl⟩
    exact get?_shapes h hx

variable {start : Option String} {models : List Model} {c : Catalog} {s : SnapshotId}

def passes (s : SnapshotId) (xs : List Model) : Assembly Unit := do
  xs.forM (addTable s)
  xs.forM (addForeignKeys s)

/-- Both passes go through exactly for consistent declarations, and draw their shapes. -/
theorem tracks_passes (s : SnapshotId) (xs : List Model) :
    Tracks (fun c m => c.Draws s m ∧ m = .empty) (passes s xs) (fun _ n => Consistent xs ∧ n = shapes xs)
      fun _ => (Catalog.Draws · s) := by
  have hfirst : Tracks (Catalog.Draws · s) (xs.forM (addTable s)) _ fun _ => (Catalog.Draws · s) :=
    Tracks.forM fun x _ => (tracks_addTable x).congr (fun _ _ _ _ => moves_strokes_iff) fun _ _ _ => id
  have hsecond : Tracks (Catalog.Draws · s) (xs.forM (addForeignKeys s)) _ fun _ => (Catalog.Draws · s) :=
    Tracks.forM fun x _ => tracks_addForeignKeys x
  refine ((hfirst.bind fun _ => hsecond).restrict fun _ _ h => h.1).congr ?_ fun _ _ _ => id
  rintro c _ n ⟨-, rfl⟩
  unfold Relation.Comp
  simp only [moves_tables_iff, moves_references_iff]
  constructor
  · rintro ⟨k, ⟨hdrawable, -, hapart, rfl⟩, hrefers, rfl⟩
    exact ⟨⟨hdrawable, hapart, fun x hx => (hrefers x hx).2⟩, rfl⟩
  · rintro ⟨h, rfl⟩
    exact ⟨outline xs, ⟨h.drawable, fun x _ => room_empty x, h.apart, rfl⟩,
      fun x hx => ⟨⟨_, get?_outline h.apart hx⟩, h.references x hx⟩, rfl⟩

theorem schema_eq (start : Option String) (models : List Model) : Model.schema start models =
    match outcomeOf (passes ⟨0⟩ (chosen start models)) (Catalog.addSnapshot .empty) with
      | (.ok _, c) => .ok (c, ⟨0⟩)
      | (.error e, _) => .error e := by
  have hassemble : outcomeOf (assemble start models) .empty =
      outcomeOf (passes ⟨0⟩ (chosen start models) >>= fun _ => pure (⟨0⟩ : SnapshotId))
        (Catalog.addSnapshot .empty) := by
    unfold passes
    rw [bind_assoc]
    rfl
  show ((outcomeOf (assemble start models) .empty).1.map fun s =>
    ((outcomeOf (assemble start models) .empty).2, s)) = _
  rw [hassemble, outcomeOf_bind]
  rcases outcomeOf (passes ⟨0⟩ (chosen start models)) (Catalog.addSnapshot .empty) with ⟨e | v, c⟩ <;> rfl

/-- What declarations describe has the shapes that can be read off them, and they are consistent. -/
theorem draws_schema (h : Model.schema start models = .ok (c, s)) :
    Consistent (chosen start models) ∧ c.Draws s (shapes (chosen start models)) := by
  rw [schema_eq] at h
  rcases hrun : outcomeOf (passes ⟨0⟩ (chosen start models)) (Catalog.addSnapshot .empty) with ⟨e | v, d⟩
  · rw [hrun] at h
    cases h
  · rw [hrun] at h
    cases h
    obtain ⟨n, ⟨hconsistent, rfl⟩, hd⟩ := (tracks_passes ⟨0⟩ (chosen start models)).leads _ .empty
      ⟨Catalog.draws_addSnapshot, rfl⟩ v c hrun
    exact ⟨hconsistent, hd⟩

/-- Declarations describe a schema exactly if they are consistent. -/
theorem schema_eq_ok_iff : (∃ c s, Model.schema start models = .ok (c, s)) ↔
    Consistent (chosen start models) := by
  constructor
  · rintro ⟨c, s, h⟩
    exact (draws_schema h).1
  · intro h
    obtain ⟨v, c, hrun, -⟩ := (tracks_passes ⟨0⟩ (chosen start models)).allows _ .empty _
      ⟨Catalog.draws_addSnapshot, rfl⟩ ⟨h, rfl⟩
    exact ⟨c, ⟨0⟩, by rw [schema_eq, hrun]⟩

/-! ## What a diff asks of the described schema -/

theorem number?_uniqueStroke (x : Model) (names : List String) : (x.uniqueStroke names).number? = none := rfl

theorem number?_indexStroke (x : Model) (i : IndexDeclaration) : (x.indexStroke i).number? = none := by
  unfold indexStroke
  split <;> rfl

/-- A declared primary key takes the slots from 1 on, one for each column. -/
theorem keys_slots_drawing (h : x.Drawable) :
    x.drawing.slots.keys = Table.slotsUpTo x.primaryKeyColumns.length := by
  obtain ⟨sts, hsts, hfits⟩ := h
  have hnone : ∀ {γ : Type} (f : γ → Stroke) (gs : List γ), (∀ g, (f g).number? = none) →
      (gs.map f).filterMap Stroke.number? = [] := by
    intro γ f gs hf
    rw [List.filterMap_map, List.filterMap_eq_nil_iff]
    exact fun g _ => hf g
  rw [drawing_eq hsts, Stroke.keys_slots_foldl_draw hfits]
  obtain ⟨columns, -, rfl⟩ := strokes_eq_ok_iff.mp hsts
  unfold laterStrokes
  rw [List.filterMap_append, List.filterMap_append, List.filterMap_append, hnone _ _ fun _ => rfl,
    hnone _ _ x.number?_uniqueStroke, hnone _ _ x.number?_indexStroke, Stroke.filterMap_number?_key]
  show [] ++ ([] ++ (_ ++ ([] ++ []))) = _
  rw [List.append_nil, List.append_nil, List.nil_append, List.nil_append, Table.slotsUpTo]
  exact List.map_congr_left fun i _ => Int.add_comm 1 i

/-- A declared index is not unique: a unique one is made as a constraint. -/
theorem distinct_of_mem_strokes {sts : List Stroke} (hsts : x.strokes = .ok sts) {index : String}
    {columns : List String} {distinct : Bool} (h : .index index columns distinct ∈ sts) :
    distinct = false := by
  obtain ⟨specs, -, rfl⟩ := strokes_eq_ok_iff.mp hsts
  unfold laterStrokes at h
  simp only [List.mem_append, List.mem_map] at h
  rcases h with ⟨spec, -, hspec⟩ | hkey | ⟨names, -, hunique⟩ | ⟨i, -, hindex⟩
  · cases hspec
  · exact absurd hkey (Stroke.index_not_mem_key _ _)
  · cases hunique
  · unfold indexStroke at hindex
    split at hindex
    next => cases hindex
    next =>
      cases hindex
      rfl

theorem distinct_of_indexes_drawing {index : String} {columns : List String} {distinct : Bool}
    (h : x.drawing.indexes.get? index = some (columns, distinct)) : distinct = false := by
  unfold drawing at h
  split at h
  next sts hsts =>
    rcases Stroke.get?_indexes_foldl_draw h with hempty | hmem
    · cases hempty
    · exact distinct_of_mem_strokes hsts hmem
  next => cases h

/-- What declarations describe is verified and has no unique index. -/
theorem verify_schema (h : Model.schema start models = .ok (c, s)) :
    (c.snapshot s).verify = .ok () ∧ (c.snapshot s).uniqueIndexes = [] := by
  obtain ⟨hconsistent, hdraws⟩ := draws_schema h
  constructor
  · rw [hdraws.verify_eq_ok_iff]
    intro name sh hname
    obtain ⟨x, hx, -, rfl⟩ := (get?_shapes_eq_some_iff hconsistent.apart).mp hname
    exact ⟨x.primaryKeyColumns.length, .of_eq (keys_slots_drawing (hconsistent.drawable x hx))⟩
  · rw [Snapshot.uniqueIndexes_eq_nil_iff]
    intro name t ht n i hi
    have hname : (shapes (chosen start models)).get? name = some t.shape := by
      rw [← hdraws.shape, Snapshot.shape, OrderedMap.get?_map, ht, Option.map_some]
    obtain ⟨x, -, -, hshape⟩ := (get?_shapes_eq_some_iff hconsistent.apart).mp hname
    have hindex : t.shape.indexes.get? n = some (columnNames i.columns, i.unique) := by
      rw [Table.shape, OrderedMap.get?_map, hi, Option.map_some]
    rw [← hshape] at hindex
    exact distinct_of_indexes_drawing hindex

end Model
end SchemaSync
