import SchemaSync.Proofs.Diff.Convergence

/-!
# Plans can be executed

What each operation needs of the database in which it runs is `Operation.Ready`; a list of operations is
executable if each is ready when its turn comes. Inside one phase no operation spoils another
(`executable_of_stable`), so it is enough that all of them are ready when the phase begins. What a
phase needs of the earlier ones is then a fact about single names: a table is not touched before its
turn, every desired column is there once the tables are rebuilt, and every name of an index to be
created has been freed, be it by a dropped index or with a dropped table.
-/

namespace SchemaSync

/-! ## Ready operations -/

def Database.HasColumn (db : Database) (table column : String) : Prop :=
  ∃ t, db.tables.get? table = some t ∧ t.columns.contains column = true

/-- What an operation finds in a database in which it can be carried out. A rebuild finds the columns
that it copies from, and an index finds its name free, so that it is not passed over. -/
def Operation.Ready (db : Database) : Operation → Prop
  | dropIndex table name => ∃ i, db.indexes.get? name = some i ∧ i.table = table
  | dropForeignKey table column => db.HasColumn table column.name
  | createTable table _ => db.tables.get? table.name = none
  | dropTable name => ∃ t, db.tables.get? name = some t
  | addColumn table column =>
    ∃ t, db.tables.get? table = some t ∧ t.columns.contains column.name = false
  | dropColumn table name => db.HasColumn table name
  | recreateTable current _ _ _ =>
    ∃ t, db.tables.get? current.name = some t ∧ t.columns = current.form.columns
  | addForeignKey table column f => db.HasColumn table column.name ∧
    ∃ x, f.foreignColumns = [x] ∧ db.HasColumn f.targetName x.name
  | createIndex table name columns => (∃ t, db.tables.get? table = some t) ∧
    (∀ c ∈ columns, db.HasColumn table c) ∧ db.indexes.get? name = none

/-- Operations that are ready one after the other. -/
def Executable (db : Database) : List Operation → Prop
  | [] => True
  | op :: ops => op.Ready db ∧ Executable (op.apply db) ops

theorem executable_append {db : Database} {ops more : List Operation} :
    Executable db (ops ++ more) ↔ Executable db ops ∧ Executable (db.run ops) more := by
  induction ops generalizing db with
  | nil => exact (and_iff_right trivial).symm
  | cons op ops ih =>
      show op.Ready db ∧ Executable (op.apply db) (ops ++ more) ↔ _
      rw [ih]
      exact and_assoc.symm

/-- An operation that stays ready when another one has been carried out. -/
def Operation.Unspoilt (first second : Operation) : Prop :=
  ∀ db, second.Ready db → second.Ready (first.apply db)

theorem executable_of_stable {db : Database} {ops : List Operation}
    (hready : ∀ op ∈ ops, op.Ready db) (hstable : ops.Pairwise Operation.Unspoilt) :
    Executable db ops := by
  induction ops generalizing db with
  | nil => trivial
  | cons op ops ih =>
      -- The first operation spoils none of the others, and they do not spoil each other.
      obtain ⟨hfirst, hrest⟩ := List.pairwise_cons.mp hstable
      refine ⟨hready op (by simp), ih ?_ hrest⟩
      intro o ho
      exact hfirst o ho db (hready o (List.mem_cons_of_mem op ho))

/-! ## Operations of one phase -/

namespace Operation

theorem unspoilt_dropIndex {s t m n : String} (h : m ≠ n) :
    Unspoilt (dropIndex s m) (dropIndex t n) := by
  intro db h
  rcases h with ⟨i, hi, htable⟩
  refine ⟨i, ?_, htable⟩
  rw [Database.get?_indexes_apply, hi]
  exact if_neg h

theorem unspoilt_createTable {s t : Table} {r q : Bool} (h : s.name ≠ t.name) :
    Unspoilt (createTable s r) (createTable t q) := by
  intro db hfree
  show ((createTable s r).apply db).tables.get? t.name = none
  rw [Database.get?_tables_apply]
  exact (onTable_of_ne (createTable s r) trivial h _).trans hfree

theorem unspoilt_dropTable {s t : String} (h : s ≠ t) : Unspoilt (dropTable s) (dropTable t) := by
  intro db h
  rcases h with ⟨f, hf⟩
  refine ⟨f, ?_⟩
  rw [Database.get?_tables_apply]
  exact (onTable_of_ne (dropTable s) trivial h _).trans hf

theorem unspoilt_dropColumn {s t c d : String} (h : s ≠ t ∨ c ≠ d) :
    Unspoilt (dropColumn s c) (dropColumn t d) := by
  intro db h
  rcases h with ⟨f, hf, hcolumn⟩
  by_cases hst : s = t
  · -- In one table two columns go, and the second one is still there.
    have hcd : c ≠ d := h.resolve_left fun hne => hne hst
    refine ⟨f.withoutColumn c, ?_, ?_⟩
    · rw [Database.get?_tables_apply, hf]
      exact if_pos hst
    · obtain ⟨x, hx⟩ := OrderedMap.contains_iff.mp hcolumn
      have herase : (f.columns.erase c).get? d = some x := by
        rw [OrderedMap.get?_erase, if_neg (Ne.symm hcd), hx]
      exact OrderedMap.contains_of_get? herase
  · refine ⟨f, ?_, hcolumn⟩
    rw [Database.get?_tables_apply]
    exact (onTable_of_ne (dropColumn s c) trivial hst _).trans hf

theorem unspoilt_recreateTable {s t s' t' : Table} {r q : List Reason} {x y : String}
    (hkeeps : s.name = s'.name) (h : s'.name ≠ t.name) :
    Unspoilt (recreateTable s s' r x) (recreateTable t t' q y) := by
  intro db h
  rcases h with ⟨f, hf, hcolumns⟩
  refine ⟨f, ?_, hcolumns⟩
  rw [Database.get?_tables_apply]
  exact (onTable_of_ne (recreateTable s s' r x) hkeeps h _).trans hf

theorem unspoilt_createIndex {s t m n : String} {cs ds : List String} (h : m ≠ n) :
    Unspoilt (createIndex s m cs) (createIndex t n ds) := by
  intro db h
  rcases h with ⟨htable, hcolumns, hfree⟩
  refine ⟨htable, hcolumns, ?_⟩
  rw [Database.get?_indexes_apply, hfree]
  show (none : Option IndexForm).or (if m = n then _ else none) = none
  rw [if_neg h]
  rfl

theorem unspoilt_dropForeignKey {s t : String} {c d : Column} :
    Unspoilt (dropForeignKey s c) (dropForeignKey t d) := fun _ h => h

theorem unspoilt_addForeignKey {s t : String} {c d : Column} {f g : ForeignKey} :
    Unspoilt (addForeignKey s c f) (addForeignKey t d g) := fun _ h => h

end Operation

/-! ## The phases in themselves -/

namespace Snapshot

variable {current desired : Snapshot} {suffixes : Nat → String} {creationMode : Bool}

theorem stable_indexDrops (hs : current.Sound) (hc : current.Verified) :
    (indexDrops current desired).Pairwise Operation.Unspoilt := by
  have hnodup : ((indexesToRemove current desired).values.map Index.name).Nodup :=
    OrderedMap.nodup_map_values fun n i hi =>
      hc.name_indexesByName ((get?_indexesToRemove hs hc).mp hi).1
  unfold indexDrops
  rw [List.pairwise_map]
  exact (List.pairwise_map.mp hnodup).imp fun h => Operation.unspoilt_dropIndex h

theorem stable_indexCreations (hs : desired.Sound) (hd : desired.Verified) :
    (indexCreations current desired).Pairwise Operation.Unspoilt := by
  have hnodup : ((indexesToAdd current desired).values.map Index.name).Nodup :=
    OrderedMap.nodup_map_values fun n i hi =>
      hd.name_indexesByName ((get?_indexesToAdd hs hd).mp hi).1
  unfold indexCreations
  rw [List.pairwise_map]
  exact (List.pairwise_map.mp hnodup).imp fun h => Operation.unspoilt_createIndex h

theorem stable_tableCreations (hd : desired.Verified) :
    (tableCreations current desired).Pairwise Operation.Unspoilt := by
  unfold tableCreations
  rw [List.pairwise_map]
  exact (List.pairwise_map.mp (hd.nodup_tablesWithout current)).imp
    fun h => Operation.unspoilt_createTable h

theorem stable_tableDrops (hc : current.Verified) :
    (tableDrops current desired).Pairwise Operation.Unspoilt := by
  unfold tableDrops
  rw [List.pairwise_map]
  exact (List.pairwise_map.mp (hc.nodup_tablesWithout desired)).imp
    fun h => Operation.unspoilt_dropTable h

theorem stable_tableRebuilds (hc : current.Verified) (hd : desired.Verified) :
    (tableRebuilds suffixes current desired).Pairwise Operation.Unspoilt := by
  have hnodup : ((tableRebuilds suffixes current desired).map Operation.table).Nodup :=
    nodup_table_tableRebuilds hc hd
  refine (List.pairwise_map.mp hnodup).imp_of_mem ?_
  intro e o he ho hne
  obtain ⟨m, r, j, hr, rfl⟩ := mem_tableRebuilds he
  obtain ⟨n, q, k, hq, rfl⟩ := mem_tableRebuilds ho
  obtain ⟨hrc, hrd⟩ := name_of_rebuild hc hd hr
  obtain ⟨hqc, hqd⟩ := name_of_rebuild hc hd hq
  refine Operation.unspoilt_recreateTable (hrc.trans hrd.symm) ?_
  rw [hqc, ← hqd]
  exact hne

theorem stable_referenceDrops : (referenceDrops current desired).Pairwise Operation.Unspoilt := by
  apply List.pairwise_of_forall_mem_list
  intro e he o ho
  obtain ⟨f, -, c, -, rfl⟩ := mem_referenceDrops he
  obtain ⟨g, -, d, -, rfl⟩ := mem_referenceDrops ho
  exact Operation.unspoilt_dropForeignKey

theorem stable_referenceAdditions :
    (referenceAdditions current desired).Pairwise Operation.Unspoilt := by
  apply List.pairwise_of_forall_mem_list
  intro e he o ho
  obtain ⟨f, -, c, -, rfl⟩ := mem_referenceAdditions he
  obtain ⟨g, -, d, -, rfl⟩ := mem_referenceAdditions ho
  exact Operation.unspoilt_addForeignKey

theorem nodup_columnNames_removedColumns {t d : Table} (ht : t.Verified) :
    (columnNames (removedColumns t d)).Nodup := by
  have hnodup : (t.columns.values.map Column.name).Nodup :=
    OrderedMap.nodup_map_values fun name c h => (ht.column name c h).2
  exact hnodup.sublist (List.filter_sublist.map Column.name)

theorem stable_columnDrops (hc : current.Verified) :
    (columnDrops current desired).Pairwise Operation.Unspoilt := by
  rw [columnDrops_eq, List.pairwise_flatMap]
  constructor
  · -- One table: no column is dropped twice.
    rintro ⟨n, t⟩ he
    obtain ⟨-, -, hverified⟩ := hc.table n t (OrderedMap.mem_entries_iff_get?.mp he)
    unfold entryColumnDrops
    split
    · exact List.Pairwise.nil
    · next d hd =>
      split
      · exact List.Pairwise.nil
      · have hnames := nodup_columnNames_removedColumns (d := d) hverified
        rw [List.pairwise_map]
        exact (List.pairwise_map.mp hnames).imp fun h => Operation.unspoilt_dropColumn (Or.inr h)
  · -- Two tables: they have different names.
    have hkeys := List.pairwise_map.mp current.tables.nodup
    refine hkeys.imp_of_mem ?_
    rintro ⟨m, s⟩ ⟨n, t⟩ hs ht hne e he o ho
    obtain ⟨-, hsname, -⟩ := hc.table m s (OrderedMap.mem_entries_iff_get?.mp hs)
    obtain ⟨-, htname, -⟩ := hc.table n t (OrderedMap.mem_entries_iff_get?.mp ht)
    obtain ⟨-, -, -, c, -, rfl⟩ := mem_entryColumnDrops he
    obtain ⟨-, -, -, d, -, rfl⟩ := mem_entryColumnDrops ho
    refine Operation.unspoilt_dropColumn (Or.inl ?_)
    rw [hsname, htname]
    exact hne

end Snapshot
end SchemaSync
