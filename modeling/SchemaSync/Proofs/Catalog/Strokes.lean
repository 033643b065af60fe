import SchemaSync.Proofs.Catalog.Drawing

/-!
# Strokes

Drawing a table is a matter of strokes: each puts one part on the shape of the table, and `Stroke.Fits` says
what it asks of the shape. Strokes that follow each other go through exactly if each fits what the ones
before it leave (`Stroke.moves_iff`). Of the other tables nothing counts but the names of their indexes, so
whether a table can be drawn at all and whether there is room for it are two questions
(`Stroke.fitAll_iff`).

A foreign key leads to another table and is not a stroke; what is asked for there is a `KeyRequest`.
-/

namespace SchemaSync

/-! ## Strokes -/

/-- An edit that makes a part of one table, all but a foreign key; columns go by their names. -/
inductive Stroke where
  | column (spec : ColumnSpec)
  | slot (number : Int) (name : String)
  | unique (columns : List String)
  | index (name : String) (columns : List String) (distinct : Bool)

/-- The index names of the tables of a shape, but for one table. -/
def Taken (m : OrderedMap String TableShape) (name index : String) : Prop :=
  ∃ key other, key ≠ name ∧ m.get? key = some other ∧ other.indexes.contains index = true

theorem taken_insert (m : OrderedMap String TableShape) (name : String) (sh : TableShape) :
    Taken (m.insert name sh) name = Taken m name := by
  funext index
  have hget : ∀ key, key ≠ name → (m.insert name sh).get? key = m.get? key := by
    intro key hkey
    rw [OrderedMap.get?_insert, if_neg (Ne.symm hkey)]
  simp only [Taken, eq_iff_iff]
  constructor
  · rintro ⟨key, other, hkey, hother, hindex⟩
    exact ⟨key, other, hkey, hget key hkey ▸ hother, hindex⟩
  · rintro ⟨key, other, hkey, hother, hindex⟩
    exact ⟨key, other, hkey, (hget key hkey).symm ▸ hother, hindex⟩

namespace Stroke

/-- What a stroke makes of the shape of its table. -/
def draw (sh : TableShape) : Stroke → TableShape
  | column spec =>
      let drawn := sh.addColumn spec.name (spec.form ((ColumnType.ofKeyword? spec.type).getD .unknown))
      if spec.unique then drawn.addUnique [spec.name] else drawn
  | slot number name => sh.fillSlot number name
  | unique columns => sh.addUnique columns
  | index name columns distinct => sh.addIndex name columns distinct

/-- What a stroke asks of the shape of its table. The index names of the other tables are `taken`. -/
def Fits (taken : String → Prop) (sh : TableShape) : Stroke → Prop
  | column spec => sh.columns.get? spec.name = none ∧ (ColumnType.ofKeyword? spec.type).isSome = true
  | slot number name => 1 ≤ number ∧ sh.columns.contains name = true ∧
      sh.slots.get? number = none ∧ name ∉ sh.slots.values
  | unique columns => (∀ x ∈ columns, sh.columns.contains x = true) ∧ columns.Nodup ∧
      columns ∉ sh.uniques
  | index name columns _ => (∀ x ∈ columns, sh.columns.contains x = true) ∧
      sh.indexes.get? name = none ∧ ¬ taken name

/-- A stroke on the table of a name. -/
def Step (name : String) (st : Stroke) (m n : OrderedMap String TableShape) : Prop :=
  ∃ sh, m.get? name = some sh ∧ st.Fits (Taken m name) sh ∧ n = m.insert name (st.draw sh)

/-- The strokes that put columns into the primary key slots from `number` on. -/
def key (number : Int) : List String → List Stroke
  | [] => []
  | name :: names => slot number name :: key (number + 1) names

/-- Strokes of which each fits what the ones before it leave. -/
def FitAll (taken : String → Prop) : TableShape → List Stroke → Prop
  | _, [] => True
  | sh, st :: sts => st.Fits taken sh ∧ FitAll taken (st.draw sh) sts

def number? : Stroke → Option Int
  | slot number _ => some number
  | _ => none

def indexName? : Stroke → Option String
  | index name _ _ => some name
  | _ => none

theorem fits_iff {taken : String → Prop} {sh : TableShape} {st : Stroke} :
    st.Fits taken sh ↔ st.Fits (fun _ => False) sh ∧ ∀ n ∈ st.indexName?, ¬ taken n := by
  cases st with
  | index name columns distinct => simp [Fits, indexName?, and_assoc]
  | _ => simp [Fits, indexName?]

/-- Whether strokes fit is a matter of their table alone, but for the names of the indexes. -/
theorem fitAll_iff {taken : String → Prop} {sts : List Stroke} {sh : TableShape} :
    FitAll taken sh sts ↔ FitAll (fun _ => False) sh sts ∧ ∀ n ∈ sts.filterMap indexName?, ¬ taken n := by
  induction sts generalizing sh with
  | nil => simp [FitAll]
  | cons st sts ih =>
      rw [FitAll, FitAll, fits_iff, ih]
      cases hindex : st.indexName? with
      | none =>
          rw [List.filterMap_cons_none hindex]
          simp [and_assoc]
      | some name =>
          rw [List.filterMap_cons_some hindex]
          simp [and_assoc, and_left_comm]

theorem fitAll_append {taken : String → Prop} {sts others : List Stroke} {sh : TableShape} :
    FitAll taken sh (sts ++ others) ↔ FitAll taken sh sts ∧ FitAll taken (sts.foldl draw sh) others := by
  induction sts generalizing sh with
  | nil => simp [FitAll]
  | cons st sts ih => rw [List.cons_append, FitAll, FitAll, ih, and_assoc, List.foldl_cons]

/-- Strokes of one table go through one after the other if they fit, and only then. -/
theorem moves_iff {name : String} {sts : List Stroke} {m n : OrderedMap String TableShape} {sh : TableShape}
    (hname : m.get? name = some sh) : Moves (Step name) sts m n ↔
      FitAll (Taken m name) sh sts ∧ n = m.insert name (sts.foldl draw sh) := by
  induction sts generalizing m sh with
  | nil =>
      rw [List.foldl_nil, ← OrderedMap.update_eq_insert hname fun a => a, OrderedMap.update_id]
      simp [Moves, FitAll]
  | cons st sts ih =>
      have hnext : (m.insert name (st.draw sh)).get? name = some (st.draw sh) := by
        rw [OrderedMap.get?_insert, if_pos rfl]
      -- The stroke stays on its table, so the names that are taken elsewhere are the same for the rest.
      have hrest := ih hnext
      rw [taken_insert, OrderedMap.insert_insert] at hrest
      constructor
      · rintro ⟨k, ⟨sh', hname', hst, rfl⟩, hmoves⟩
        obtain rfl := Option.some.inj (hname.symm.trans hname')
        obtain ⟨hsts, rfl⟩ := hrest.mp hmoves
        exact ⟨⟨hst, hsts⟩, rfl⟩
      · rintro ⟨⟨hst, hsts⟩, rfl⟩
        exact ⟨_, ⟨sh, hname, hst, rfl⟩, hrest.mpr ⟨hsts, rfl⟩⟩

/-! ### What strokes leave -/

/-- A stroke fills its slot, after the ones that are filled. -/
theorem keys_slots_draw {taken : String → Prop} {sh : TableShape} {st : Stroke} (h : st.Fits taken sh) :
    (st.draw sh).slots.keys = sh.slots.keys ++ st.number?.toList := by
  cases st with
  | slot number name =>
      obtain ⟨-, -, hfree, -⟩ := h
      show (sh.slots.insert number name).keys = sh.slots.keys ++ [number]
      rw [OrderedMap.keys_insert, if_neg (OrderedMap.get?_eq_none_iff.mp hfree)]
  | column spec =>
      show (draw sh (column spec)).slots.keys = sh.slots.keys ++ []
      rw [draw, List.append_nil]
      split <;> rfl
  | _ => exact (List.append_nil _).symm

/-- A primary key takes as many slots in a row as it has columns. -/
theorem filterMap_number?_key (number : Int) (names : List String) :
    (key number names).filterMap number? =
      (List.range names.length).map fun i : Nat => number + (i : Int) := by
  induction names generalizing number with
  | nil => rfl
  | cons name names ih =>
      have hfirst : (slot number name).number? = some number := rfl
      rw [key, List.filterMap_cons_some hfirst, ih, List.length_cons, List.range_succ_eq_map, List.map_cons,
        List.map_map]
      congr 1
      · simp
      · apply List.map_congr_left
        intro i _
        simp only [Function.comp_apply, Nat.succ_eq_add_one]
        omega

theorem index_not_mem_key (number : Int) (names : List String) {name : String} {columns : List String}
    {distinct : Bool} : index name columns distinct ∉ key number names := by
  induction names generalizing number with
  | nil => exact List.not_mem_nil
  | cons first names ih =>
      rw [key, List.mem_cons, not_or]
      exact ⟨nofun, ih (number + 1)⟩

theorem keys_slots_foldl_draw {taken : String → Prop} {sts : List Stroke} {sh : TableShape}
    (h : FitAll taken sh sts) :
    (sts.foldl draw sh).slots.keys = sh.slots.keys ++ sts.filterMap number? := by
  induction sts generalizing sh with
  | nil => exact (List.append_nil _).symm
  | cons st sts ih =>
      obtain ⟨hst, hsts⟩ := h
      rw [List.foldl_cons, ih hsts, keys_slots_draw hst, List.append_assoc]
      cases hnumber : st.number? with
      | none => rw [List.filterMap_cons_none hnumber, Option.toList_none, List.nil_append]
      | some number => rw [List.filterMap_cons_some hnumber, Option.toList_some, List.singleton_append]

/-- Strokes leave the foreign keys of their table. -/
theorem foreignKeys_draw (st : Stroke) (sh : TableShape) : (draw sh st).foreignKeys = sh.foreignKeys := by
  cases st with
  | column spec =>
      unfold draw
      dsimp only
      split <;> rfl
  | _ => rfl

theorem foreignKeys_foldl_draw (sts : List Stroke) (sh : TableShape) :
    (sts.foldl draw sh).foreignKeys = sh.foreignKeys := by
  induction sts generalizing sh with
  | nil => rfl
  | cons st sts ih => rw [List.foldl_cons, ih, foreignKeys_draw]

/-- The indexes that are there after some strokes. -/
theorem get?_indexes_foldl_draw {sts : List Stroke} {sh : TableShape} {n : String} {columns : List String}
    {distinct : Bool} (h : (sts.foldl draw sh).indexes.get? n = some (columns, distinct)) :
    sh.indexes.get? n = some (columns, distinct) ∨ index n columns distinct ∈ sts := by
  induction sts generalizing sh with
  | nil => exact Or.inl h
  | cons st sts ih =>
      rcases ih h with hdrawn | hmem
      · cases st with
        | index name others flag =>
            replace hdrawn : (sh.indexes.insert name (others, flag)).get? n = some (columns, distinct) := hdrawn
            rw [OrderedMap.get?_insert] at hdrawn
            by_cases hname : name = n
            · rw [if_pos hname] at hdrawn
              cases hdrawn
              exact Or.inr (hname ▸ List.mem_cons_self)
            · rw [if_neg hname] at hdrawn
              exact Or.inl hdrawn
        | column spec =>
            left
            rw [draw] at hdrawn
            split at hdrawn <;> exact hdrawn
        | _ => exact Or.inl hdrawn
      · exact Or.inr (List.mem_cons_of_mem _ hmem)

theorem contains_indexes_draw {sh : TableShape} {st : Stroke} {n : String} :
    (st.draw sh).indexes.contains n = true ↔ sh.indexes.contains n = true ∨ st.indexName? = some n := by
  cases st with
  | index name columns distinct =>
      show (sh.indexes.insert name (columns, distinct)).contains n = true ↔ _
      rw [OrderedMap.contains, OrderedMap.get?_insert]
      by_cases hname : name = n
      · simp [indexName?, hname]
      · simp [indexName?, hname, OrderedMap.contains]
  | column spec =>
      rw [draw]
      split <;> simp [indexName?, TableShape.addUnique, TableShape.addColumn]
  | _ => simp [draw, indexName?, TableShape.addUnique, TableShape.fillSlot]

theorem contains_indexes_foldl_draw {sts : List Stroke} {sh : TableShape} {n : String} :
    (sts.foldl draw sh).indexes.contains n = true ↔
      sh.indexes.contains n = true ∨ n ∈ sts.filterMap indexName? := by
  induction sts generalizing sh with
  | nil => simp
  | cons st sts ih =>
      rw [List.foldl_cons, ih, contains_indexes_draw, or_assoc, List.mem_filterMap, List.mem_filterMap,
        List.exists_mem_cons_iff]

end Stroke

/-! ## Requests for foreign keys -/

/-- A foreign key as it is asked for: the target by its name and the actions by their keywords. -/
structure KeyRequest where
  localColumns : List String
  foreignColumns : List String
  target : String
  onUpdate : String
  onDelete : String

namespace KeyRequest

def form? (r : KeyRequest) : Option KeyForm :=
  match Action.ofKeyword? r.onUpdate, Action.ofKeyword? r.onDelete with
  | some onUpdate, some onDelete => some ⟨r.localColumns, r.foreignColumns, r.target, onUpdate, onDelete⟩
  | _, _ => none

def spec (r : KeyRequest) (target : TableRef) : ForeignKeySpec where
  target
  localColumns := r.localColumns.map .named
  foreignColumns := r.foreignColumns.map .named
  onUpdate := r.onUpdate
  onDelete := r.onDelete

def Step (name : String) (r : KeyRequest) (m n : OrderedMap String TableShape) : Prop :=
  ∃ key, r.form? = some key ∧ key.Fits m name ∧ n = m.update name (.addForeignKey key)

theorem form?_eq_some_iff {r : KeyRequest} {key : KeyForm} : r.form? = some key ↔
    Action.ofKeyword? r.onUpdate = some key.onUpdate ∧ Action.ofKeyword? r.onDelete = some key.onDelete ∧
      key.localColumns = r.localColumns ∧ key.foreignColumns = r.foreignColumns ∧
      key.target = r.target := by
  unfold form?
  cases hupdate : Action.ofKeyword? r.onUpdate with
  | none => simp
  | some onUpdate =>
      cases hdelete : Action.ofKeyword? r.onDelete with
      | none => simp
      | some onDelete =>
          constructor
          · rintro ⟨⟩
            exact ⟨rfl, rfl, rfl, rfl, rfl⟩
          · rintro ⟨⟨⟩, ⟨⟩, hlocal, hforeign, htarget⟩
            rw [← hlocal, ← hforeign, ← htarget]

/-- A foreign key is asked for by what it is made of. -/
theorem spec_eq {r : KeyRequest} {key : KeyForm} (h : r.form? = some key) (target : TableRef) :
    r.spec target = key.spec target := by
  obtain ⟨hupdate, hdelete, hlocal, hforeign, -⟩ := form?_eq_some_iff.mp h
  unfold spec KeyForm.spec
  rw [hlocal, hforeign, Action.keyword_of_ofKeyword? hupdate, Action.keyword_of_ofKeyword? hdelete]

end KeyRequest

end SchemaSync
