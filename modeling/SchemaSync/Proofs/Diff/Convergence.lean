import SchemaSync.Proofs.Diff.Phases

/-!
# Convergence

A plan turns the database of the current snapshot into that of the desired one. A table comes to its
desired form in one of three ways: it is created, it is rebuilt, or its columns are dropped in place;
`tables_operations` follows one table name through the whole plan and says which. For a table
that is altered in place the classification has found that everything but the dropped columns agrees
(`Table.Agrees`), and that is what is left of its definition.
-/

namespace SchemaSync

/-- What a column's definition is compared by: all of it but the auto-increment flag. -/
def ColumnForm.definition (c : ColumnForm) : ColumnType × Bool × Option String :=
  (c.type, c.notNull, c.default)

/-- Two definitions of a table with the same columns, whatever their order and auto-increment flags. -/
def TableForm.SameColumns (t d : TableForm) : Prop :=
  ∀ name, (t.columns.get? name).map ColumnForm.definition =
    (d.columns.get? name).map ColumnForm.definition

/-- The name of the table whose whole definition an operation makes. -/
def Operation.made? : Operation → Option String
  | createTable table _ => some table.name
  | recreateTable _ desired _ _ => some desired.name
  | _ => none

def Plan.Makes (p : Plan) (name : String) : Prop := ∃ op ∈ p.operations, op.made? = some name

/-! ## One table name through a plan -/

namespace Snapshot

variable {current desired : Snapshot} {suffixes : Nat → String} {creationMode : Bool} {n : String}

theorem get?_tables_database {s : Snapshot} {name : String} :
    s.database.tables.get? name = (s.tables.get? name).map Table.form := OrderedMap.get?_map _ _ _

theorem run_attachments (db : Database) :
    db.run (if creationMode = true then [] else referenceAdditions current desired) = db := by
  cases creationMode with
  | false => exact run_referenceAdditions
  | true => rfl

/-- Only five of the phases change tables. -/
theorem tables_operations (db : Database) :
    (db.run (operations suffixes current desired creationMode)).tables.get? n =
      (((((db.run (indexDrops current desired)).run (tableCreations current desired)).run
        (tableDrops current desired)).run (columnDrops current desired)).run
        (tableRebuilds suffixes current desired)).tables.get? n := by
  unfold operations
  simp only [Database.run_append, tables_indexCreations, run_attachments, run_referenceDrops]

variable (hc : current.Verified) (hd : desired.Verified)
include hc hd

/-- A table that stays is as in `current` until its columns are dropped or it is rebuilt. -/
theorem tables_beforeColumnDrops {t d : Table} (ht : current.tables.get? n = some t)
    (hn : desired.tables.get? n = some d) :
    (((current.database.run (indexDrops current desired)).run (tableCreations current desired)).run
      (tableDrops current desired)).tables.get? n = some t.form := by
  have hstays : desired.tables.get? n ≠ none := by simp [hn]
  have hold : current.tables.get? n ≠ none := by simp [ht]
  rw [hc.tables_tableDrops_other (Or.inr hstays), hd.tables_tableCreations_other (Or.inr hold),
    tables_indexDrops, get?_tables_database, ht, Option.map_some]

theorem tables_operations_gone (hn : desired.tables.get? n = none) :
    (current.database.run (operations suffixes current desired creationMode)).tables.get? n =
      none := by
  rw [tables_operations, tables_tableRebuilds_other hc hd (get?_rebuilds_of_gone hn),
    hc.tables_columnDrops_other (Or.inl hn)]
  cases ht : current.tables.get? n with
  | some t => exact hc.tables_tableDrops_gone ht hn
  | none =>
      rw [hc.tables_tableDrops_other (Or.inl ht), hd.tables_tableCreations_other (Or.inl hn),
        tables_indexDrops, get?_tables_database, ht, Option.map_none]

theorem tables_operations_created {d : Table} (hn : desired.tables.get? n = some d)
    (hnew : current.tables.get? n = none) :
    (current.database.run (operations suffixes current desired creationMode)).tables.get? n =
      some d.form := by
  rw [tables_operations, tables_tableRebuilds_other hc hd (get?_rebuilds_of_new hnew),
    hc.tables_columnDrops_other (Or.inr (Or.inl hnew)), hc.tables_tableDrops_other (Or.inl hnew),
    hd.tables_tableCreations_new hn hnew]

theorem tables_operations_rebuilt {r : Rebuild} (hr : (rebuilds current desired).get? n = some r) :
    (current.database.run (operations suffixes current desired creationMode)).tables.get? n =
      some r.desired.form := by
  rw [tables_operations, tables_tableRebuilds_rebuilt hc hd hr]

theorem tables_operations_kept {t d : Table} (ht : current.tables.get? n = some t)
    (hn : desired.tables.get? n = some d) (hnone : (rebuilds current desired).get? n = none) :
    (current.database.run (operations suffixes current desired creationMode)).tables.get? n =
      some (t.form.without (columnNames (removedColumns t d))) := by
  rw [tables_operations, tables_tableRebuilds_other hc hd hnone,
    hc.tables_columnDrops_kept ht hn hnone, tables_beforeColumnDrops hc hd ht hn, Option.map_some]

omit hc hd

/-! ## Columns of a kept table -/

theorem mem_columnNames_removedColumns {t d : Table} (ht : t.Verified) {name : String} :
    name ∈ columnNames (removedColumns t d) ↔
      t.columns.contains name = true ∧ d.columns.contains name = false := by
  unfold columnNames removedColumns
  rw [List.mem_map]
  constructor
  · intro h
    rcases h with ⟨c, hmem, rfl⟩
    obtain ⟨hvalue, hgone⟩ := List.mem_filter.mp hmem
    obtain ⟨k, hk⟩ := OrderedMap.mem_values_iff.mp hvalue
    have hname : c.name = k := (ht.column k c hk).2
    rw [Bool.not_eq_true'] at hgone
    rw [← hname] at hk
    exact ⟨OrderedMap.contains_of_get? hk, hgone⟩
  · intro h
    rcases h with ⟨hcontains, hgone⟩
    obtain ⟨c, hget⟩ := OrderedMap.contains_iff.mp hcontains
    have hname : c.name = name := (ht.column name c hget).2
    refine ⟨c, List.mem_filter.mpr ⟨OrderedMap.mem_values_of_get? hget, ?_⟩, hname⟩
    rw [hname, hgone]
    rfl

/-- Between agreeing forms, dropping the columns that go leaves the desired columns. -/
theorem sameColumns_of_agrees {t d : Table} (ht : t.Verified) (h : t.Agrees d) :
    (t.form.without (columnNames (removedColumns t d))).SameColumns d.form := by
  intro name
  have hleft : (t.form.without (columnNames (removedColumns t d))).columns.get? name =
      ((t.columns.get? name).map Column.form).filter fun _ =>
        !(columnNames (removedColumns t d)).contains name := by
    rw [← OrderedMap.get?_map]
    exact OrderedMap.get?_filter _ _ _
  have hright : d.form.columns.get? name = (d.columns.get? name).map Column.form :=
    OrderedMap.get?_map _ _ _
  rw [hleft, hright]
  cases hx : d.columns.get? name with
  | none =>
      -- A column that is not desired has been dropped, if it was there at all.
      cases htc : t.columns.get? name with
      | none => rfl
      | some c =>
          have hmem : name ∈ columnNames (removedColumns t d) :=
            (mem_columnNames_removedColumns ht).mpr
              ⟨OrderedMap.contains_of_get? htc, OrderedMap.contains_eq_false_iff.mpr hx⟩
          simp [hmem]
  | some x =>
      -- A desired column was there before, and with the definition that it is to have.
      have hcontains : t.columns.contains name = true :=
        h.contains name (OrderedMap.mem_keys_iff.mpr ⟨x, hx⟩)
      obtain ⟨c, htc⟩ := OrderedMap.contains_iff.mp hcontains
      have hname : c.name = name := (ht.column name c htc).2
      have hdefinition : c.definition = x.definition :=
        h.columns c (OrderedMap.mem_values_of_get? htc) x (hname ▸ hx)
      have hnot : name ∉ columnNames (removedColumns t d) := by
        rw [mem_columnNames_removedColumns ht, OrderedMap.contains_of_get? hx]
        simp
      rw [htc]
      simp only [Option.map_some, Option.filter, List.contains_eq_mem, hnot, decide_false,
        Bool.not_false, if_true]
      exact congrArg some hdefinition

/-! ## The whole plan -/

/-- A database holds exactly the tables of `desired`, each with the desired columns; the tables that
the plan makes are as desired throughout, and of the others all that is not a column is as in
`current`, where the classification compared it as equal. -/
structure Converged (p : Plan) (current desired : Snapshot) (db : Database) : Prop where
  names : ∀ name, db.tables.contains name = desired.tables.contains name
  columns : ∀ name d, desired.tables.get? name = some d →
    ∃ f, db.tables.get? name = some f ∧ f.SameColumns d.form
  made : ∀ name d, desired.tables.get? name = some d → p.Makes name →
    db.tables.get? name = some d.form
  kept : ∀ name d, desired.tables.get? name = some d → ¬ p.Makes name →
    ∃ t f, current.tables.get? name = some t ∧ db.tables.get? name = some f ∧
      f.primaryKey = t.form.primaryKey ∧ f.uniques = t.form.uniques ∧
      f.foreignKeys = t.form.foreignKeys ∧ t.canonicalPrimaryKey = d.canonicalPrimaryKey ∧
      t.canonicalUniques = d.canonicalUniques ∧ t.canonicalForeignKeys = d.canonicalForeignKeys

/-- A plan makes the tables that are new and the tables that are rebuilt. -/
theorem makes_iff (hc : current.Verified) (hd : desired.Verified) {d : Table}
    (hn : desired.tables.get? n = some d) :
    (plan suffixes current desired creationMode).Makes n ↔
      current.tables.get? n = none ∨ (rebuilds current desired).get? n ≠ none := by
  constructor
  · intro h
    rcases h with ⟨op, hop, hmade⟩
    -- One case a phase; only created and rebuilt tables are made.
    rcases mem_operations.mp hop with h | h | h | h | h | h | ⟨-, h⟩ | h
    · obtain ⟨m, i, -, rfl⟩ := mem_indexDrops.mp h
      cases hmade
    · obtain ⟨f, -, c, -, rfl⟩ := mem_referenceDrops h
      cases hmade
    · obtain ⟨u, -, hnew, rfl⟩ := hd.mem_tableCreations.mp h
      have hname : u.name = n := Option.some.inj hmade
      exact Or.inl (hname ▸ hnew)
    · obtain ⟨u, -, -, rfl⟩ := hc.mem_tableDrops.mp h
      cases hmade
    · obtain ⟨m, t, u, -, -, -, c, -, rfl⟩ := mem_columnDrops.mp h
      cases hmade
    · obtain ⟨m, r, k, hr, rfl⟩ := mem_tableRebuilds h
      have hname : r.desired.name = n := Option.some.inj hmade
      rw [(name_of_rebuild hc hd hr).2] at hname
      rw [← hname, hr]
      exact Or.inr (by simp)
    · obtain ⟨f, -, c, -, rfl⟩ := mem_referenceAdditions h
      cases hmade
    · obtain ⟨m, i, -, rfl⟩ := mem_indexCreations.mp h
      cases hmade
  · obtain ⟨-, hname, -⟩ := hd.table n d hn
    subst hname
    intro h
    rcases h with hnew | hrebuilt
    · have hmem : .createTable d false ∈ tableCreations current desired :=
        hd.mem_tableCreations.mpr ⟨d, hn, hnew, rfl⟩
      exact ⟨_, mem_operations.mpr (Or.inr (Or.inr (Or.inl hmem))), rfl⟩
    · obtain ⟨r, hr⟩ := Option.ne_none_iff_exists'.mp hrebuilt
      obtain ⟨k, hmem⟩ := exists_mem_tableRebuilds suffixes hr
      refine ⟨.recreateTable r.current r.desired r.reasons (suffixes k), ?_, ?_⟩
      · exact mem_operations.mpr (Or.inr (Or.inr (Or.inr (Or.inr (Or.inr (Or.inl hmem))))))
      · exact congrArg some (name_of_rebuild hc hd hr).2

theorem tables_plan_made (hc : current.Verified) (hd : desired.Verified) {d : Table}
    (hn : desired.tables.get? n = some d)
    (hmade : (plan suffixes current desired creationMode).Makes n) :
    (current.database.run (plan suffixes current desired creationMode).operations).tables.get? n =
      some d.form := by
  rcases (makes_iff hc hd hn).mp hmade with hnew | hrebuilt
  · exact tables_operations_created hc hd hn hnew
  · obtain ⟨r, hr⟩ := Option.ne_none_iff_exists'.mp hrebuilt
    have hdesired := get?_desired_of_rebuild hr
    rw [hn] at hdesired
    cases hdesired
    exact tables_operations_rebuilt hc hd hr

theorem tables_plan_kept (hc : current.Verified) (hd : desired.Verified) {d : Table}
    (hn : desired.tables.get? n = some d)
    (hkept : ¬ (plan suffixes current desired creationMode).Makes n) :
    ∃ t, current.tables.get? n = some t ∧ t.Agrees d ∧
      (current.database.run (plan suffixes current desired creationMode).operations).tables.get? n =
        some (t.form.without (columnNames (removedColumns t d))) := by
  rw [makes_iff hc hd hn, not_or, not_not] at hkept
  obtain ⟨hold, hnone⟩ := hkept
  obtain ⟨t, ht⟩ := Option.ne_none_iff_exists'.mp hold
  exact ⟨t, ht, (get?_rebuilds_eq_none_iff ht hn).mp hnone, tables_operations_kept hc hd ht hn hnone⟩

theorem columns_plan (hc : current.Verified) (hd : desired.Verified) {d : Table}
    (hn : desired.tables.get? n = some d) :
    ∃ f, (current.database.run
        (plan suffixes current desired creationMode).operations).tables.get? n = some f ∧
      f.SameColumns d.form := by
  by_cases hmade : (plan suffixes current desired creationMode).Makes n
  · exact ⟨d.form, tables_plan_made hc hd hn hmade, fun _ => rfl⟩
  · obtain ⟨t, ht, hagrees, hrun⟩ := tables_plan_kept hc hd hn hmade
    obtain ⟨-, -, hverified⟩ := hc.table n t ht
    exact ⟨_, hrun, sameColumns_of_agrees hverified hagrees⟩

/-- **Convergence**: for verified snapshots there is a plan, and its operations in their order bring the
database of `current` to that of `desired`. -/
theorem diff_converges (suffixes : Nat → String) {current desired : Snapshot} {creationMode : Bool}
    (h : current.Plannable desired creationMode) :
    ∃ p, diff suffixes current desired creationMode = .ok p ∧
      Converged p current desired (current.database.run p.operations) := by
  have hc := verify_eq_ok_iff.mp h.verifiedCurrent
  have hd := verify_eq_ok_iff.mp h.verifiedDesired
  refine ⟨_, h.diff_eq suffixes, ?_, ?_, ?_, ?_⟩
  · intro name
    cases hn : desired.tables.get? name with
    | none =>
        rw [OrderedMap.contains_eq_false_iff.mpr hn]
        exact OrderedMap.contains_eq_false_iff.mpr (tables_operations_gone hc hd hn)
    | some d =>
        obtain ⟨f, hf, -⟩ := columns_plan hc hd hn
        rw [OrderedMap.contains_of_get? hn]
        exact OrderedMap.contains_of_get? hf
  · intro name d hn
    exact columns_plan hc hd hn
  · intro name d hn hmade
    exact tables_plan_made hc hd hn hmade
  · intro name d hn hkept
    obtain ⟨t, ht, hagrees, hrun⟩ := tables_plan_kept hc hd hn hkept
    exact ⟨t, _, ht, hrun, rfl, rfl, rfl, hagrees.key, hagrees.uniques, hagrees.foreignKeys⟩

def plainColumn (name type : String) : ColumnSpec := ⟨name, type, false, none, false, false⟩

/-- Four tables: one that is rebuilt, one that refers to it, one that goes and one that loses a
column. -/
def earlier : List Edit.Command :=
  [.createSnapshot, .createTable ⟨0⟩ "users", .createTable ⟨0⟩ "posts", .createTable ⟨0⟩ "drafts",
    .createTable ⟨0⟩ "tags", .createColumn ⟨0⟩ (plainColumn "id" "INTEGER"),
    .createColumn ⟨1⟩ (plainColumn "user" "INTEGER"), .createColumn ⟨2⟩ (plainColumn "body" "TEXT"),
    .createColumn ⟨3⟩ (plainColumn "name" "TEXT"), .createColumn ⟨3⟩ (plainColumn "colour" "TEXT"),
    .createIndex ⟨2⟩ "by_body" [.named "body"] false,
    .createIndex ⟨3⟩ "by_name" [.named "name"] false,
    .createForeignKey ⟨1⟩ ⟨.named "users", [.named "user"], [.named "id"], "CASCADE", "NO ACTION"⟩]

/-- What the tables are to become: the index of the table that goes is wanted on a new one. -/
def later : List Edit.Command :=
  [.createSnapshot, .createTable ⟨0⟩ "notes", .createTable ⟨0⟩ "posts", .createTable ⟨0⟩ "users",
    .createTable ⟨0⟩ "tags", .createColumn ⟨0⟩ (plainColumn "body" "TEXT"),
    .createColumn ⟨1⟩ (plainColumn "user" "INTEGER"), .createColumn ⟨2⟩ (plainColumn "id" "INTEGER"),
    .createColumn ⟨2⟩ (plainColumn "mail" "TEXT"), .createColumn ⟨3⟩ (plainColumn "name" "TEXT"),
    .createUnique ⟨2⟩ [.named "mail"], .createIndex ⟨0⟩ "by_body" [.named "body"] false,
    .createIndex ⟨3⟩ "by_name" [.named "name"] false,
    .createForeignKey ⟨1⟩ ⟨.named "users", [.named "user"], [.named "id"], "CASCADE", "NO ACTION"⟩]

theorem plannable_earlier_later : Plannable (ofCommands earlier) (ofCommands later) false where
  mode := by simp
  verifiedCurrent := by cbv
  verifiedDesired := by cbv
  noUnique := by cbv

theorem diff_converges_earlier_later :
    Plannable (ofCommands earlier) (ofCommands later) false ∧
      ∃ p, diff Nat.repr (ofCommands earlier) (ofCommands later) false = .ok p ∧
        Converged p (ofCommands earlier) (ofCommands later)
          ((ofCommands earlier).database.run p.operations) :=
  ⟨plannable_earlier_later, diff_converges Nat.repr plannable_earlier_later⟩

end Snapshot
end SchemaSync
