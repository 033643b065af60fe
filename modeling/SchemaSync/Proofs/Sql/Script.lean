import SchemaSync.Proofs.OrderedMap
import SchemaSync.Proofs.Sql.TableStatement

/-!
# What statements do to rows

Statements as data, with what SQL says in each of them and a plain meaning over a store of tables, where a
table is its columns in order and its rows in order. Constraints are not checked, so the meaning of a
statement is only where it puts which value, and when it fails: over a table or a column that is not there,
or over a name that is taken.

What a literal stands for, and what the random filling of a column gives row by row, is left open.
-/

namespace SchemaSync.Sql

variable {α : Type}

/-! ## Contents of a table -/

/-- Columns in order and rows in order. Every row has a value in every column and in no other. -/
structure Contents (α : Type) where
  columns : List String
  rows : List (OrderedMap String α)
  nodup : columns.Nodup
  aligned : ∀ row ∈ rows, row.keys = columns

namespace Contents

/-- Append a column with one value in every row. -/
def addColumn (t : Contents α) (name : String) (value : α) : Option (Contents α) :=
  if h : name ∈ t.columns then none
  else some
    { columns := t.columns ++ [name]
      rows := t.rows.map fun row => row.insert name value
      nodup := OrderedMap.nodup_append_singleton t.nodup h
      aligned := by
        intro row hrow
        obtain ⟨old, hold, rfl⟩ := List.mem_map.mp hrow
        rw [OrderedMap.keys_insert, t.aligned old hold, if_neg h] }

/-- Write into one column of every row. -/
def fillColumn (t : Contents α) (name : String) (value : Nat → α) : Option (Contents α) :=
  if h : name ∈ t.columns then some
    { t with
      rows := t.rows.mapIdx fun i row => row.insert name (value i)
      aligned := by
        intro row hrow
        obtain ⟨i, hi, rfl⟩ := List.mem_mapIdx.mp hrow
        have hold := t.aligned _ (List.getElem_mem hi)
        rw [OrderedMap.keys_insert, hold, if_pos h] }
  else none

/-- A table without rows; it needs a column, and none twice. -/
def create (columns : List String) : Option (Contents α) :=
  if h : columns ≠ [] ∧ columns.Nodup then some ⟨columns, [], h.2, by simp⟩ else none

def select (null : α) (t : Contents α) (names : List String) : Option (List (List α)) :=
  if ∀ n ∈ names, n ∈ t.columns then
    some (t.rows.map fun row => names.map fun n => (row.get? n).getD null)
  else none

/-- The row of a table that has some values; it is null where no value is given. -/
def rowOf (null : α) (t : Contents α) (values : List (String × α)) : OrderedMap String α where
  entries := t.columns.map fun n => (n, (OrderedMap.findEntry n values).getD null)
  nodup := by simpa [List.map_map, Function.comp_def] using t.nodup

/-- Append rows that are given by their values in some columns. -/
def append (null : α) (t : Contents α) (names : List String) (rows : List (List α)) :
    Option (Contents α) :=
  if ∀ n ∈ names, n ∈ t.columns then some
    { t with
      rows := t.rows ++ rows.map fun values => t.rowOf null (names.zip values)
      aligned := by
        intro row hrow
        rcases List.mem_append.mp hrow with hrow | hrow
        · exact t.aligned row hrow
        · obtain ⟨values, -, rfl⟩ := List.mem_map.mp hrow
          simp [rowOf, OrderedMap.keys, List.map_map, Function.comp_def] }
  else none

/-! ### Where the values are -/

/-- A table that has come from another one by new columns. Old values stay where they were, and the new
column `c` holds `value c i` in row `i`. -/
structure Extends (value : Column → Nat → α) (cs : List Column) (t u : Contents α) : Prop where
  columns : u.columns = t.columns ++ columnNames cs
  length : u.rows.length = t.rows.length
  old : ∀ (i : Nat) (row row' : OrderedMap String α), t.rows[i]? = some row → u.rows[i]? = some row' →
    ∀ n, n ∉ columnNames cs → row'.get? n = row.get? n
  new : ∀ (i : Nat) (row' : OrderedMap String α), u.rows[i]? = some row' →
    ∀ c ∈ cs, row'.get? c.name = some (value c i)

theorem Extends.refl {value : Column → Nat → α} (t : Contents α) : Extends value [] t t where
  columns := (List.append_nil _).symm
  length := rfl
  old := by
    intro i row row' hrow hrow' n _
    rw [hrow] at hrow'
    cases hrow'
    rfl
  new := by simp

theorem Extends.trans {value : Column → Nat → α} {c : Column} {cs : List Column} {t u v : Contents α}
    (hfirst : Extends value [c] t u) (hrest : Extends value cs u v) (hnew : c.name ∉ columnNames cs) :
    Extends value (c :: cs) t v where
  columns := by
    rw [hrest.columns, hfirst.columns, List.append_assoc]
    rfl
  length := hrest.length.trans hfirst.length
  old := by
    intro i row row' hrow hrow' n hn
    have hlt : i < u.rows.length := by
      rw [hfirst.length]
      exact (List.getElem?_eq_some_iff.mp hrow).1
    have hmid := List.getElem?_eq_getElem hlt
    have hne : n ∉ columnNames [c] ∧ n ∉ columnNames cs := by
      simpa [columnNames] using hn
    rw [hrest.old i _ row' hmid hrow' n hne.2, hfirst.old i row _ hrow hmid n hne.1]
  new := by
    intro i row' hrow' x hx
    rcases List.mem_cons.mp hx with rfl | hx
    · -- The first column is not touched by the later ones.
      have hlt : i < u.rows.length := by
        rw [← hrest.length]
        exact (List.getElem?_eq_some_iff.mp hrow').1
      have hmid := List.getElem?_eq_getElem hlt
      rw [hrest.old i _ row' hmid hrow' x.name hnew]
      exact hfirst.new i _ hmid x (List.mem_singleton_self x)
    · exact hrest.new i row' hrow' x hx

theorem exists_addColumn {t : Contents α} {c : Column} (hnew : c.name ∉ t.columns) (value : α) :
    ∃ u, t.addColumn c.name value = some u ∧ Extends (fun _ _ => value) [c] t u := by
  refine ⟨_, dif_neg hnew, rfl, List.length_map _, ?_, ?_⟩
  · intro i row row' hrow hrow' n hn
    rw [List.getElem?_map, hrow, Option.map_some] at hrow'
    cases hrow'
    have hne : c.name ≠ n := by simpa [columnNames, eq_comm] using hn
    rw [OrderedMap.get?_insert, if_neg hne]
  · intro i row' hrow' x hx
    rw [List.getElem?_map] at hrow'
    obtain ⟨row, -, rfl⟩ := Option.map_eq_some_iff.mp hrow'
    rw [List.mem_singleton.mp hx, OrderedMap.get?_insert, if_pos rfl]

/-- A column that has just been added may be written again. -/
theorem Extends.exists_fillColumn {value : Column → Nat → α} {c : Column} {t u : Contents α}
    (h : Extends value [c] t u) (filling : Nat → α) :
    ∃ v, u.fillColumn c.name filling = some v ∧ Extends (fun _ => filling) [c] t v := by
  have hmem : c.name ∈ u.columns := by simp [h.columns, columnNames]
  refine ⟨_, dif_pos hmem, h.columns, ?_, ?_, ?_⟩
  · rw [List.length_mapIdx, h.length]
  · intro i row row' hrow hrow' n hn
    rw [List.getElem?_mapIdx] at hrow'
    obtain ⟨mid, hmid, rfl⟩ := Option.map_eq_some_iff.mp hrow'
    have hne : c.name ≠ n := by simpa [columnNames, eq_comm] using hn
    rw [OrderedMap.get?_insert, if_neg hne]
    exact h.old i row mid hrow hmid n hn
  · intro i row' hrow' x hx
    rw [List.getElem?_mapIdx] at hrow'
    obtain ⟨mid, -, rfl⟩ := Option.map_eq_some_iff.mp hrow'
    rw [List.mem_singleton.mp hx, OrderedMap.get?_insert, if_pos rfl]

theorem Extends.congr {value value' : Column → Nat → α} {cs : List Column} {t u : Contents α}
    (h : Extends value cs t u) (heq : ∀ c ∈ cs, ∀ i, value c i = value' c i) :
    Extends value' cs t u where
  columns := h.columns
  length := h.length
  old := h.old
  new := by
    intro i row' hrow' c hc
    rw [← heq c hc i]
    exact h.new i row' hrow' c hc

/-- Values that are given for all columns stand under their columns. -/
theorem get?_rowOf {null : α} {t : Contents α} {values : List (String × α)} {n : String}
    (hn : n ∈ t.columns) :
    (t.rowOf null values).get? n = some ((OrderedMap.findEntry n values).getD null) := by
  rw [← OrderedMap.mem_entries_iff_get?]
  exact List.mem_map_of_mem hn

theorem findEntry_zip_map {f : String → α} {n : String} :
    ∀ {names : List String}, n ∈ names →
      OrderedMap.findEntry n (names.zip (names.map f)) = some (f n)
  | m :: names, hn => by
    rw [List.map_cons, List.zip_cons_cons, OrderedMap.findEntry]
    by_cases hm : m = n
    · rw [if_pos hm, hm]
    · have hrest : n ∈ names := (List.mem_cons.mp hn).resolve_left fun h => hm h.symm
      rw [if_neg hm, findEntry_zip_map hrest]

/-- A table of some columns that holds the rows of another one, each cell in the column of its name. -/
structure Copies (names : List String) (t u : Contents α) : Prop where
  columns : u.columns = names
  length : u.rows.length = t.rows.length
  cell : ∀ (i : Nat) (row row' : OrderedMap String α), t.rows[i]? = some row → u.rows[i]? = some row' →
    ∀ n ∈ names, row'.get? n = row.get? n

theorem Copies.exists_row {names : List String} {t u : Contents α} (h : Copies names t u) {i : Nat}
    {row' : OrderedMap String α} (hrow' : u.rows[i]? = some row') : ∃ row, t.rows[i]? = some row := by
  have hlt : i < t.rows.length := by
    rw [← h.length]
    exact (List.getElem?_eq_some_iff.mp hrow').1
  exact ⟨_, List.getElem?_eq_getElem hlt⟩

/-- All columns of an empty table can be copied from a table that has them. -/
theorem exists_copy (null : α) {s t : Contents α} (hempty : t.rows = [])
    (hcolumns : ∀ n ∈ t.columns, n ∈ s.columns) :
    ∃ rows u, s.select null t.columns = some rows ∧ t.append null t.columns rows = some u ∧
      Copies t.columns s u := by
  refine ⟨_, _, if_pos hcolumns, if_pos fun n hn => hn, rfl, ?_, ?_⟩
  · simp [hempty]
  · intro i row row' hrow hrow' n hn
    simp only [hempty, List.nil_append, List.map_map, List.getElem?_map, hrow, Option.map_some,
      Option.some.injEq] at hrow'
    subst hrow'
    have hmem : row ∈ s.rows := List.mem_of_getElem? hrow
    obtain ⟨a, ha⟩ : ∃ a, row.get? n = some a := by
      rw [← OrderedMap.mem_keys_iff, s.aligned row hmem]
      exact hcolumns n hn
    show (t.rowOf null (t.columns.zip (t.columns.map fun n => (row.get? n).getD null))).get? n = _
    rw [get?_rowOf hn, findEntry_zip_map hn, ha]
    rfl

end Contents

/-! ## Statements -/

/-- What expressions stand for. -/
structure Evaluation (α : Type) where
  null : α
  /-- The value of the literal in a default. -/
  literal : String → α
  /-- What the random filling of a column gives in a row. -/
  drawn : String → Nat → α

abbrev Rowset (α : Type) := OrderedMap String (Contents α)

inductive Statement where
  | addColumn (table column : String) (form : ColumnForm)
  /-- Fill a column with random values. -/
  | fillColumn (table column : String)
  | createTable (name : String) (rows : List Row)
  | copyRows (source target : String) (columns : List String)
  | dropTable (name : String)
  | renameTable (old new : String)

namespace Statement

/-- What a statement does, unless it fails. -/
def run (ev : Evaluation α) (db : Rowset α) : Statement → Option (Rowset α)
  | addColumn table column form => do
    let t ← db.get? table
    pure (db.insert table (← t.addColumn column (form.default.elim ev.null ev.literal)))
  | fillColumn table column => do
    let t ← db.get? table
    pure (db.insert table (← t.fillColumn column (ev.drawn column)))
  | createTable name rows => do
    guard (!db.contains name)
    pure (db.insert name (← Contents.create ((rows.filterMap Row.column?).map Prod.fst)))
  | copyRows source target columns => do
    let s ← db.get? source
    let t ← db.get? target
    pure (db.insert target (← t.append ev.null columns (← s.select ev.null columns)))
  | dropTable name => do
    guard (db.contains name)
    pure (db.erase name)
  | renameTable old new => do
    guard (db.contains old && !db.contains new)
    pure (db.rename old new)

def runAll (ev : Evaluation α) (db : Rowset α) (script : List Statement) : Option (Rowset α) :=
  script.foldlM (run ev) db

theorem runAll_append (ev : Evaluation α) (db : Rowset α) (script more : List Statement) :
    runAll ev db (script ++ more) = (runAll ev db script).bind fun d => runAll ev d more :=
  List.foldlM_append

end Statement
end SchemaSync.Sql
