import SchemaSync.Proofs.Schema.Sound
import SchemaSync.Proofs.Sql.Spelling

/-!
# A rebuild keeps every row

`Sql.recreateTable` writes a script of a varying number of statements: the new columns are added to the
old table one by one, some of them filled in a second step, then all columns are copied to the shadow
table, which takes the place of the old one. `rebuildScript` is this script as data, with texts of its own.
The main statement is `rebuild_keeps_rows`: these texts are what is written, none of the statements fails,
and what they leave is the old rows in the new columns (`Rebuilt`).
-/

namespace SchemaSync

/-! ## The script -/

namespace Sql

variable {α : Type} {current desired : Table}

def newColumns (current desired : Table) : List Column :=
  desired.columns.values.filter fun c => !current.columns.contains c.name

/-- A value of a type, for rows that have none. -/
def standIn : ColumnType → String
  | .integer | .real => "0"
  | .text | .blob | .null | .unknown => "''"

theorem placeholder_eq (t : ColumnType) : t.placeholder = standIn t := by cases t <;> rfl

/-- The default with which a new column is added. -/
def temporaryDefault (desired : Table) (c : Column) : String :=
  if mustBeUnique desired c.name then standIn c.type else c.default.getD (standIn c.type)

def addMissing (table : String) (desired : Table) (c : Column) : List Statement :=
  .addColumn table c.name { c.form with default := some (temporaryDefault desired c) } ::
    if mustBeUnique desired c.name then [.fillColumn table c.name] else []

def shadowName (table suffix : String) : String := table ++ "__new__" ++ suffix

def rebuildScript (current desired : Table) (suffix : String) : List Statement :=
  let shadow := shadowName desired.name suffix
  (newColumns current desired).flatMap (addMissing current.name desired) ++
    [.createTable shadow (formRows desired.form), .copyRows current.name shadow desired.columns.keys,
      .dropTable current.name, .renameTable shadow current.name]

theorem map_text_addMissing (table : String) (desired : Table) (c : Column) :
    (addMissing table desired c).map Statement.text = addMissingColumn table desired c := by
  unfold addMissing addMissingColumn addColumnWith temporaryDefault
  rw [placeholder_eq]
  cases mustBeUnique desired c.name <;> simp [Statement.text_addColumn, Statement.text_fillColumn]

/-- The statements of a rebuild are spelled as the rebuild is written. -/
theorem map_text_rebuildScript (hd : desired.Reachable) (suffix : String) :
    (rebuildScript current desired suffix).map Statement.text = recreateTable current desired suffix := by
  unfold rebuildScript recreateTable
  rw [List.map_append, List.map_flatMap]
  simp only [map_text_addMissing, List.map_cons, List.map_nil, Statement.text_copyRows,
    Statement.text_dropTable, Statement.text_renameTable,
    Statement.text_createTable fun _ _ => hd.name_column]
  rfl

/-! ## Adding the new columns -/

/-- What a new column holds in a row: a random value if it has to tell rows apart, else its default, or a
value of its type if it has none. -/
def newCell (ev : Evaluation α) (desired : Table) (c : Column) (i : Nat) : α :=
  if mustBeUnique desired c.name then ev.drawn c.name i
  else ev.literal (c.default.getD (standIn c.type))

/-- A database in which only one table is another one. -/
structure Rowset.Sets (db final : Rowset α) (name : String) (t : Contents α) : Prop where
  own : final.get? name = some t
  other : ∀ n, n ≠ name → final.get? n = db.get? n

theorem Rowset.sets_insert (db : Rowset α) (name : String) (t : Contents α) :
    Rowset.Sets db (db.insert name t) name t where
  own := by rw [OrderedMap.get?_insert, if_pos rfl]
  other := by
    intro n hn
    rw [OrderedMap.get?_insert, if_neg hn.symm]

theorem Rowset.Sets.trans {db mid final : Rowset α} {name : String} {t u : Contents α}
    (hfirst : Rowset.Sets db mid name t) (hrest : Rowset.Sets mid final name u) :
    Rowset.Sets db final name u where
  own := hrest.own
  other := fun n hn => (hrest.other n hn).trans (hfirst.other n hn)

theorem runAll_addMissing (desired : Table) (ev : Evaluation α) {db : Rowset α} {table : String}
    {t : Contents α} (ht : db.get? table = some t) {c : Column} (hnew : c.name ∉ t.columns) :
    ∃ final u, Statement.runAll ev db (addMissing table desired c) = some final ∧
      Rowset.Sets db final table u ∧ Contents.Extends (newCell ev desired) [c] t u := by
  obtain ⟨u, hadd, hu⟩ := Contents.exists_addColumn hnew (ev.literal (temporaryDefault desired c))
  have hfirst : (Statement.addColumn table c.name
      { c.form with default := some (temporaryDefault desired c) }).run ev db =
        some (db.insert table u) := by
    simp [Statement.run, ht, hadd]
  cases hunique : mustBeUnique desired c.name with
  | false =>
      refine ⟨_, u, ?_, Rowset.sets_insert db table u, hu.congr ?_⟩
      · simp [addMissing, hunique, Statement.runAll, hfirst]
      · intro x hx i
        simp [List.mem_singleton.mp hx, newCell, temporaryDefault, hunique]
  | true =>
      obtain ⟨v, hfill, hv⟩ := hu.exists_fillColumn (ev.drawn c.name)
      have hset := Rowset.sets_insert db table u
      have hsecond : (Statement.fillColumn table c.name).run ev (db.insert table u) =
          some ((db.insert table u).insert table v) := by
        simp [Statement.run, hset.own, hfill]
      refine ⟨_, v, ?_, hset.trans (Rowset.sets_insert _ table v), hv.congr ?_⟩
      · simp [addMissing, hunique, Statement.runAll, hfirst, hsecond]
      · intro x hx i
        simp [List.mem_singleton.mp hx, newCell, hunique]

theorem runAll_addMissings (desired : Table) (ev : Evaluation α) {table : String} {cs : List Column} :
    ∀ {db : Rowset α} {t : Contents α}, db.get? table = some t → (columnNames cs).Nodup →
      (∀ c ∈ cs, c.name ∉ t.columns) →
      ∃ final u, Statement.runAll ev db (cs.flatMap (addMissing table desired)) = some final ∧
        Rowset.Sets db final table u ∧ Contents.Extends (newCell ev desired) cs t u := by
  induction cs with
  | nil =>
      intro db t ht _ _
      exact ⟨db, t, rfl, ⟨ht, fun _ _ => rfl⟩, Contents.Extends.refl t⟩
  | cons c cs ih =>
      intro db t ht hnodup hnew
      obtain ⟨hfresh, hrest⟩ := List.nodup_cons.mp hnodup
      obtain ⟨mid, u, hrun, hset, hu⟩ :=
        runAll_addMissing desired ev ht (hnew c (List.mem_cons_self))
      -- The columns that are left are not there after the first one has been added either.
      have hleft : ∀ x ∈ cs, x.name ∉ u.columns := by
        intro x hx
        rw [hu.columns, List.mem_append, not_or]
        refine ⟨hnew x (List.mem_cons_of_mem c hx), ?_⟩
        intro hmem
        have hname : x.name = c.name := by simpa [columnNames] using hmem
        exact hfresh (hname ▸ List.mem_map_of_mem hx)
      obtain ⟨final, v, hruns, hsets, hv⟩ := ih hset.own hrest hleft
      refine ⟨final, v, ?_, hset.trans hsets, hu.trans hv hfresh⟩
      rw [List.flatMap_cons, Statement.runAll_append, hrun]
      exact hruns

/-! ## The whole script -/

/-- What a rebuild makes of the rows of a table. -/
structure Rebuilt (ev : Evaluation α) (current desired : Table) (before after : Contents α) :
    Prop where
  columns : after.columns = desired.columns.keys
  length : after.rows.length = before.rows.length
  /-- A column that both forms of the table have keeps its values. -/
  kept : ∀ (i : Nat) (row row' : OrderedMap String α), before.rows[i]? = some row →
    after.rows[i]? = some row' → ∀ name, desired.columns.contains name = true →
      current.columns.contains name = true → row'.get? name = row.get? name
  /-- A new column that is in the primary key, or alone in a unique constraint, is filled row by
  row. -/
  filled : ∀ (i : Nat) (row' : OrderedMap String α), after.rows[i]? = some row' →
    ∀ name c, desired.columns.get? name = some c → current.columns.contains name = false →
      ((∃ x ∈ desired.primaryKey, x.name = name) ∨
        ∃ u ∈ desired.uniques, columnNames u.columns = [name]) →
      row'.get? name = some (ev.drawn name i)
  /-- Any other new column has its default in every row, or a value of its type if it has none. -/
  defaulted : ∀ (i : Nat) (row' : OrderedMap String α), after.rows[i]? = some row' →
    ∀ name c, desired.columns.get? name = some c → current.columns.contains name = false →
      ¬ ((∃ x ∈ desired.primaryKey, x.name = name) ∨
        ∃ u ∈ desired.uniques, columnNames u.columns = [name]) →
      row'.get? name = some (ev.literal (c.default.getD (standIn c.type)))

theorem mustBeUnique_iff {t : Table} {name : String} : mustBeUnique t name = true ↔
    (∃ x ∈ t.primaryKey, x.name = name) ∨ ∃ u ∈ t.uniques, columnNames u.columns = [name] := by
  simp [mustBeUnique, columnNames]

theorem mem_newColumns (hd : desired.Reachable) {c : Column} : c ∈ newColumns current desired ↔
    desired.columns.get? c.name = some c ∧ current.columns.contains c.name = false := by
  rw [newColumns, List.mem_filter, OrderedMap.mem_values_iff, Bool.not_eq_true']
  refine and_congr_left fun _ => ⟨?_, fun h => ⟨c.name, h⟩⟩
  rintro ⟨name, hname⟩
  rw [hd.name_column hname]
  exact hname

theorem nodup_newColumns (hd : desired.Reachable) :
    (columnNames (newColumns current desired)).Nodup := by
  have hnodup : (columnNames desired.columns.values).Nodup := by
    rw [hd.columnNames_values]
    exact desired.columns.nodup_keys
  exact hnodup.sublist (List.filter_sublist.map Column.name)

theorem columns_formRows (t : Table) :
    ((formRows t.form).filterMap Row.column?).map Prod.fst = t.columns.keys := by
  rw [(filterMap_formRows t.form).1]
  exact OrderedMap.keys_map Column.form t.columns

/-- The shadow table gets the rows of another table in the columns of its own. -/
theorem runAll_fillShadow (ev : Evaluation α) (hne : desired.columns.keys ≠ []) {db : Rowset α}
    {table shadow : String} {t : Contents α} (ht : db.get? table = some t)
    (hcolumns : ∀ n ∈ desired.columns.keys, n ∈ t.columns) (hfree : db.get? shadow = none) :
    ∃ final u, Statement.runAll ev db [.createTable shadow (formRows desired.form),
        .copyRows table shadow desired.columns.keys] = some final ∧
      Rowset.Sets db final shadow u ∧ Contents.Copies desired.columns.keys t u := by
  have hdiffer : shadow ≠ table := by
    rintro rfl
    rw [ht] at hfree
    cases hfree
  let new : Contents α := ⟨desired.columns.keys, [], desired.columns.nodup_keys, by simp⟩
  have hcreate : (Statement.createTable shadow (formRows desired.form)).run ev db =
      some (db.insert shadow new) := by
    have hnew : (Contents.create desired.columns.keys : Option (Contents α)) = some new :=
      dif_pos ⟨hne, desired.columns.nodup_keys⟩
    simp [Statement.run, columns_formRows, OrderedMap.contains_eq_false_iff.mpr hfree, hnew]
  have hset := Rowset.sets_insert db shadow new
  obtain ⟨rows, u, hselect, happend, hu⟩ :
      ∃ rows u, t.select ev.null desired.columns.keys = some rows ∧
        new.append ev.null desired.columns.keys rows = some u ∧
        Contents.Copies desired.columns.keys t u :=
    Contents.exists_copy ev.null (t := new) rfl hcolumns
  have hcopy : (Statement.copyRows table shadow desired.columns.keys).run ev (db.insert shadow new) =
      some ((db.insert shadow new).insert shadow u) := by
    have hsource : (db.insert shadow new).get? table = some t := by
      rw [hset.other table hdiffer.symm, ht]
    simp [Statement.run, hsource, hset.own, hselect, happend]
  refine ⟨_, u, ?_, hset.trans (Rowset.sets_insert _ shadow u), hu⟩
  simp [Statement.runAll, hcreate, hcopy]

/-- The shadow table takes the place of another table. -/
theorem runAll_replace (ev : Evaluation α) {db : Rowset α} {table shadow : String} {t u : Contents α}
    (ht : db.get? table = some t) (hu : db.get? shadow = some u) (hdiffer : shadow ≠ table) :
    ∃ final, Statement.runAll ev db [.dropTable table, .renameTable shadow table] = some final ∧
      ∀ n, final.get? n = if n = table then some u else if n = shadow then none else db.get? n := by
  have hdrop : (Statement.dropTable table).run ev db = some (db.erase table) := by
    simp [Statement.run, OrderedMap.contains_of_get? ht]
  have hold : (db.erase table).get? shadow = some u := by
    rw [OrderedMap.get?_erase, if_neg hdiffer, hu]
  have hgone : (db.erase table).get? table = none := by
    rw [OrderedMap.get?_erase, if_pos rfl]
  have hrename : (Statement.renameTable shadow table).run ev (db.erase table) =
      some ((db.erase table).rename shadow table) := by
    simp [Statement.run, OrderedMap.contains_of_get? hold, OrderedMap.contains_eq_false_iff.mpr hgone]
  refine ⟨(db.erase table).rename shadow table, by simp [Statement.runAll, hdrop, hrename], ?_⟩
  intro n
  rw [OrderedMap.get?_rename (OrderedMap.get?_eq_none_iff.mp hgone), hold]
  by_cases hn : n = table
  · rw [if_pos hn, if_pos hn]
  · rw [if_neg hn, if_neg hn, OrderedMap.get?_erase, if_neg hn]

/-- Creating the shadow table, copying the rows and exchanging the tables. -/
theorem runAll_exchange (ev : Evaluation α) (hne : desired.columns.keys ≠ []) {db : Rowset α}
    {table shadow : String} {t : Contents α} (ht : db.get? table = some t)
    (hcolumns : ∀ n ∈ desired.columns.keys, n ∈ t.columns) (hfree : db.get? shadow = none) :
    ∃ final u, Statement.runAll ev db ([.createTable shadow (formRows desired.form),
        .copyRows table shadow desired.columns.keys] ++
          [.dropTable table, .renameTable shadow table]) = some final ∧
      Rowset.Sets db final table u ∧ Contents.Copies desired.columns.keys t u := by
  have hdiffer : shadow ≠ table := by
    rintro rfl
    rw [ht] at hfree
    cases hfree
  obtain ⟨mid, u, hfill, hset, hu⟩ := runAll_fillShadow ev hne ht hcolumns hfree
  have hstill : mid.get? table = some t := by rw [hset.other table hdiffer.symm, ht]
  obtain ⟨final, hreplace, hfinal⟩ := runAll_replace ev hstill hset.own hdiffer
  refine ⟨final, u, ?_, ⟨by rw [hfinal, if_pos rfl], ?_⟩, hu⟩
  · rw [Statement.runAll_append, hfill]
    exact hreplace
  · intro n hn
    rw [hfinal, if_neg hn]
    by_cases hshadow : n = shadow
    · rw [if_pos hshadow, hshadow, hfree]
    · rw [if_neg hshadow, hset.other n hshadow]

/-- A table that was widened by the new columns and then copied in the desired ones is rebuilt. -/
theorem rebuilt_of_copies {ev : Evaluation α} (hd : desired.Reachable) {before wide after : Contents α}
    (hwide : Contents.Extends (newCell ev desired) (newColumns current desired) before wide)
    (hafter : Contents.Copies desired.columns.keys wide after) :
    Rebuilt ev current desired before after := by
  have hnew : ∀ (i : Nat) (row' : OrderedMap String α), after.rows[i]? = some row' → ∀ name c,
      desired.columns.get? name = some c → current.columns.contains name = false →
        row'.get? name = some (newCell ev desired c i) := by
    intro i row' hrow' name c hget hold
    obtain rfl := hd.name_column hget
    obtain ⟨row, hrow⟩ := hafter.exists_row hrow'
    rw [hafter.cell i row row' hrow hrow' c.name (OrderedMap.mem_keys_iff.mpr ⟨c, hget⟩)]
    exact hwide.new i row hrow c ((mem_newColumns hd).mpr ⟨hget, hold⟩)
  refine ⟨hafter.columns, hafter.length.trans hwide.length, ?_, ?_, ?_⟩
  · intro i row row' hrow hrow' name hdesired hcurrent
    obtain ⟨mid, hmid⟩ := hafter.exists_row hrow'
    rw [hafter.cell i mid row' hmid hrow' name (OrderedMap.contains_iff_mem_keys.mp hdesired)]
    refine hwide.old i row mid hrow hmid name ?_
    intro hmem
    obtain ⟨c, hc, rfl⟩ := List.mem_map.mp hmem
    rw [((mem_newColumns hd).mp hc).2] at hcurrent
    cases hcurrent
  · intro i row' hrow' name c hget hold hunique
    rw [hnew i row' hrow' name c hget hold, newCell, hd.name_column hget,
      if_pos (mustBeUnique_iff.mpr hunique)]
  · intro i row' hrow' name c hget hold hunique
    rw [hnew i row' hrow' name c hget hold, newCell, hd.name_column hget,
      if_neg fun h => hunique (mustBeUnique_iff.mp h)]

/-- **A rebuild keeps every row**: what it writes are the statements of `rebuildScript`, spelled as SQL calls
for. Over any database that holds the columns of `current` with any rows and no table of the shadow's name,
none of them fails. At the end the table has the columns of `desired` and the rows from before, and every
other table is as it was. -/
theorem rebuild_keeps_rows (hd : desired.Reachable)
    (hname : current.name = desired.name) (hne : desired.columns.keys ≠ []) (suffix : String)
    (ev : Evaluation α) {db : Rowset α} {before : Contents α}
    (hbefore : db.get? current.name = some before)
    (hcolumns : ∀ name, name ∈ before.columns ↔ current.columns.contains name = true)
    (hfree : db.get? (shadowName desired.name suffix) = none) :
    (rebuildScript current desired suffix).map Statement.text =
        recreateTable current desired suffix ∧
      ∃ final after, Statement.runAll ev db (rebuildScript current desired suffix) = some final ∧
        final.get? desired.name = some after ∧ Rebuilt ev current desired before after ∧
        ∀ name, name ≠ desired.name → final.get? name = db.get? name := by
  refine ⟨map_text_rebuildScript hd suffix, ?_⟩
  -- First the new columns, none of which is there yet.
  have hnew : ∀ c ∈ newColumns current desired, c.name ∉ before.columns := by
    intro c hmem hthere
    rw [hcolumns, ((mem_newColumns hd).mp hmem).2] at hthere
    cases hthere
  obtain ⟨mid, wide, hadds, hset, hwide⟩ :=
    runAll_addMissings desired ev hbefore (nodup_newColumns hd) hnew
  have hall : ∀ n ∈ desired.columns.keys, n ∈ wide.columns := by
    intro n hn
    rw [hwide.columns, List.mem_append]
    cases hold : current.columns.contains n with
    | true => exact Or.inl ((hcolumns n).mpr hold)
    | false =>
        obtain ⟨c, hget⟩ := OrderedMap.mem_keys_iff.mp hn
        obtain rfl := hd.name_column hget
        exact Or.inr (List.mem_map_of_mem ((mem_newColumns hd).mpr ⟨hget, hold⟩))
  -- Then the exchange: the shadow's name is still free.
  have hdiffer : shadowName desired.name suffix ≠ current.name := by
    intro heq
    rw [heq, hbefore] at hfree
    cases hfree
  have hstill : mid.get? (shadowName desired.name suffix) = none := by
    rw [hset.other _ hdiffer, hfree]
  obtain ⟨final, after, hexchange, hsets, hafter⟩ :=
    runAll_exchange ev hne hset.own hall hstill
  refine ⟨final, after, ?_, hname ▸ hsets.own, rebuilt_of_copies hd hwide hafter, ?_⟩
  · rw [rebuildScript, Statement.runAll_append, hadds]
    exact hexchange
  · intro n hn
    rw [← hname] at hn
    rw [hsets.other n hn, hset.other n hn]

open Edit.Command in
def plainUsers : Table :=
  (run .empty [.createSnapshot, .createTable ⟨0⟩ "users",
    .createColumn ⟨0⟩ ⟨"id", "INTEGER", false, none, false, false⟩,
    .createColumn ⟨0⟩ ⟨"name", "TEXT", false, none, false, false⟩]).table ⟨0⟩

open Edit.Command in
/-- Users with an address of their own and a role, who have lost their name. -/
def addressedUsers : Table :=
  (run .empty [.createSnapshot, .createTable ⟨0⟩ "users",
    .createColumn ⟨0⟩ ⟨"mail", "TEXT", false, none, false, true⟩,
    .createColumn ⟨0⟩ ⟨"role", "TEXT", true, some "'guest'", false, false⟩,
    .createColumn ⟨0⟩ ⟨"id", "INTEGER", false, none, false, false⟩]).table ⟨0⟩

/-- Literals stand for themselves; two values have been drawn. -/
def drawnTwice : Evaluation String := ⟨"NULL", id, fun _ i => if i = 0 then "4711" else "815"⟩

def twoUsers : Contents String where
  columns := ["id", "name"]
  rows := [.ofList [("id", "1"), ("name", "'ann'")], .ofList [("id", "2"), ("name", "'bob'")]]
  nodup := by decide
  aligned := by decide

theorem rebuild_keeps_rows_users :
    (rebuildScript plainUsers addressedUsers "ab").map Statement.text =
      recreateTable plainUsers addressedUsers "ab" ∧
    ∃ final after, Statement.runAll drawnTwice (OrderedMap.empty.insert "users" twoUsers)
        (rebuildScript plainUsers addressedUsers "ab") = some final ∧
      final.get? addressedUsers.name = some after ∧
      Rebuilt drawnTwice plainUsers addressedUsers twoUsers after ∧
      ∀ name, name ≠ addressedUsers.name →
        final.get? name = (OrderedMap.empty.insert "users" twoUsers).get? name := by
  have hdesired : addressedUsers.Reachable :=
    ⟨_, Catalog.Reachable.empty.run (by decide), ⟨0⟩, rfl⟩
  have hname : plainUsers.name = addressedUsers.name := by decide
  have hbefore : (OrderedMap.empty.insert "users" twoUsers).get? plainUsers.name = some twoUsers :=
    rfl
  have hkeys : plainUsers.columns.keys = twoUsers.columns := by decide
  have hcolumns : ∀ name, name ∈ twoUsers.columns ↔ plainUsers.columns.contains name = true := by
    intro name
    rw [OrderedMap.contains_iff_mem_keys, hkeys]
  exact rebuild_keeps_rows hdesired hname (by decide) "ab" drawnTwice hbefore hcolumns (by decide)

end Sql
end SchemaSync
