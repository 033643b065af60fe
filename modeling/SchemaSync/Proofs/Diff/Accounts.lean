import SchemaSync.Proofs.Diff.Indexes
import SchemaSync.Proofs.Rows.Groups

/-!
# What a plan reports and what it does

The report of a plan and its operations are made from the same maps, but apart from each other. They say
the same: `Plan.Accounts` reads every part of the report off the operations, and the main statement
(`Snapshot.diff_accounts`) is that it holds of every plan. Each part of the report comes from operations
of one phase, so the proofs go phase by phase.
-/

namespace SchemaSync

/-! ## What is read off operations -/

namespace Operation

def createdTable? : Operation → Option String
  | createTable table _ => some table.name
  | _ => none

def droppedTable? : Operation → Option String
  | dropTable name => some name
  | _ => none

def rebuiltTable? : Operation → Option String
  | recreateTable _ desired _ _ => some desired.name
  | _ => none

def droppedColumn? : Operation → Option (String × String)
  | dropColumn table name => some (table, name)
  | _ => none

/-- An operation that only drops or creates an index. -/
def IsOnIndex (op : Operation) : Prop := op.droppedIndex?.isSome = true ∨ op.createdIndex?.isSome = true

theorem isOnIndex_iff {op : Operation} : op.IsOnIndex ↔ op.phase = 0 ∨ op.phase = 7 := by
  cases op <;> simp [IsOnIndex, droppedIndex?, createdIndex?, phase]

/-- In operations on indexes nothing is found that belongs to another phase. -/
theorem filterMap_eq_nil_of_isOnIndex {α : Type} {f : Operation → Option α} {k : Nat}
    (hf : ∀ op a, f op = some a → op.phase = k) (hk : 0 < k ∧ k < 7) {ops : List Operation}
    (h : ∀ op ∈ ops, op.IsOnIndex) : ops.filterMap f = [] := by
  rw [List.filterMap_eq_nil_iff]
  intro op hop
  rw [Option.eq_none_iff_forall_ne_some]
  intro a ha
  have hphase := hf op a ha
  have hends := isOnIndex_iff.mp (h op hop)
  omega

theorem phase_of_createdTable? {op : Operation} {n : String} (h : op.createdTable? = some n) :
    op.phase = 2 := by
  cases op with
  | createTable table references => rfl
  | _ => cases h

theorem phase_of_droppedTable? {op : Operation} {n : String} (h : op.droppedTable? = some n) :
    op.phase = 3 := by
  cases op with
  | dropTable name => rfl
  | _ => cases h

theorem phase_of_droppedColumn? {op : Operation} {c : String × String}
    (h : op.droppedColumn? = some c) : op.phase = 4 := by
  cases op with
  | dropColumn table name => rfl
  | _ => cases h

theorem phase_of_rebuiltTable? {op : Operation} {n : String} (h : op.rebuiltTable? = some n) :
    op.phase = 5 := by
  cases op with
  | recreateTable current desired reasons suffix => rfl
  | _ => cases h

end Operation

namespace Change

def reasons? : Change → Option (List Reason)
  | unchanged => none
  | incremental _ => none
  | recreate reasons => some reasons

def droppedColumns : Change → List String
  | unchanged => []
  | incremental edits => edits.removedColumns
  | recreate _ => []

theorem eq_recreate_of_reasons? {change : Change} {reasons : List Reason}
    (h : change.reasons? = some reasons) : change = .recreate reasons := by
  cases change with
  | recreate reasons => rw [Option.some.inj h]
  | unchanged => cases h
  | incremental edits => cases h

end Change

def Plan.operationsOn (p : Plan) (name : String) : List Operation :=
  p.operations.filter fun op => op.table = name

/-- The report of a plan is what its operations do. -/
structure Plan.Accounts (p : Plan) (current desired : Snapshot) : Prop where
  /-- The tables in both snapshots are classified. -/
  keys : p.changes.keys = current.tables.keys.filter desired.tables.contains
  /-- An operation is on one table: a rebuild does not rename. -/
  keepsName : ∀ op ∈ p.operations, op.KeepsName
  rebuilt_iff : ∀ name, (∃ reasons, p.changes.get? name = some (.recreate reasons)) ↔
    ∃ op ∈ p.operations, op.rebuiltTable? = some name
  /-- A table is rebuilt once and for the stated reasons, and loses no column otherwise. -/
  rebuilt : ∀ name reasons, p.changes.get? name = some (.recreate reasons) →
    (∃ t d suffix, current.tables.get? name = some t ∧ desired.tables.get? name = some d ∧
      (p.operationsOn name).filter (fun op => op.rebuiltTable?.isSome) =
        [.recreateTable t d reasons suffix]) ∧
    (p.operationsOn name).filterMap Operation.droppedColumn? = []
  inPlace : ∀ name edits, p.changes.get? name = some (.incremental edits) →
    edits.addedColumns = [] ∧
    edits.removedColumns =
      ((p.operationsOn name).filterMap Operation.droppedColumn?).map Prod.snd ∧
    edits.removedIndexes = (p.operationsOn name).filterMap Operation.droppedIndex? ∧
    edits.addedIndexes = (p.operationsOn name).filterMap Operation.createdIndex?
  unchanged : ∀ name, p.changes.get? name = some .unchanged → ∀ op ∈ p.operationsOn name,
    op.isReferenceDrop = true ∨ op.isReferenceAddition = true
  addedTables : p.summary.addedTables = p.operations.filterMap Operation.createdTable?
  removedTables : p.summary.removedTables = p.operations.filterMap Operation.droppedTable?
  recreatedTables : p.summary.recreatedTables = p.operations.filterMap Operation.rebuiltTable?
  removedColumns : p.summary.removedColumns =
    (p.operations.filterMap Operation.droppedColumn?).map fun c => c.1 ++ "." ++ c.2
  isEmpty_iff : p.summary.isEmpty = true ↔ ∀ op ∈ p.operations, op.IsOnIndex

namespace Snapshot

variable {current desired : Snapshot} {suffixes : Nat → String} {creationMode : Bool} {name : String}

/-! ## Whole phases -/

theorem createdTables_operations :
    (operations suffixes current desired creationMode).filterMap Operation.createdTable? =
      (desired.tablesWithout current).map Table.name := by
  rw [Operation.filterMap_eq_filter_phase fun op n => Operation.phase_of_createdTable?,
    filter_phase_operations]
  simp [tableCreations, Operation.createdTable?, List.filterMap_map]

theorem droppedTables_operations :
    (operations suffixes current desired creationMode).filterMap Operation.droppedTable? =
      (current.tablesWithout desired).map Table.name := by
  rw [Operation.filterMap_eq_filter_phase fun op n => Operation.phase_of_droppedTable?,
    filter_phase_operations]
  simp [tableDrops, Operation.droppedTable?, List.filterMap_map]

theorem droppedColumns_operations :
    (operations suffixes current desired creationMode).filterMap Operation.droppedColumn? =
      (columnDrops current desired).filterMap Operation.droppedColumn? := by
  rw [Operation.filterMap_eq_filter_phase fun op c => Operation.phase_of_droppedColumn?,
    filter_phase_operations]
  simp

/-- The rebuilt tables, in the order of `current`. -/
theorem rebuiltTables_operations (hc : current.Verified) (hd : desired.Verified) :
    (operations suffixes current desired creationMode).filterMap Operation.rebuiltTable? =
      (rebuilds current desired).keys := by
  have htable : ∀ op ∈ tableRebuilds suffixes current desired,
      op.rebuiltTable? = some op.table := by
    intro op hop
    obtain ⟨n, r, k, -, rfl⟩ := mem_tableRebuilds hop
    rfl
  rw [Operation.filterMap_eq_filter_phase fun op n => Operation.phase_of_rebuiltTable?,
    filter_phase_operations, ← map_table_tableRebuilds hc hd]
  simp only [Nat.reduceEqDiff, if_false, if_true, List.nil_append, List.append_nil]
  rw [List.filterMap_congr htable, List.filterMap_eq_map']

/-! ## Operations on one table -/

/-- What is found in operations of one phase on a table is found in that phase. -/
theorem filterMap_operationsOn {α : Type} {f : Operation → Option α} {k : Nat}
    {ops : List Operation} (h : ∀ op a, f op = some a → op.phase = k)
    (hphase : (operations suffixes current desired creationMode).filter (fun op => op.phase == k) =
      ops) :
    ((plan suffixes current desired creationMode).operationsOn name).filterMap f =
      (ops.filter fun op => op.table = name).filterMap f := by
  rw [← hphase, Operation.filterMap_eq_filter_phase h]
  exact congrArg (List.filterMap f) (List.filter_comm _ _ _)

theorem droppedIndexes_on :
    ((plan suffixes current desired creationMode).operationsOn name).filterMap Operation.droppedIndex? =
      indexNamesOn name (indexesToRemove current desired) := by
  have hphase : (operations suffixes current desired creationMode).filter (fun op => op.phase == 0) =
      indexDrops current desired := by simp [filter_phase_operations]
  rw [filterMap_operationsOn (fun op n => Operation.phase_of_droppedIndex?) hphase, indexDrops,
    List.filter_map, List.filterMap_map, indexNamesOn, ← List.filterMap_eq_map]
  rfl

theorem createdIndexes_on :
    ((plan suffixes current desired creationMode).operationsOn name).filterMap Operation.createdIndex? =
      indexNamesOn name (indexesToAdd current desired) := by
  have hphase : (operations suffixes current desired creationMode).filter (fun op => op.phase == 7) =
      indexCreations current desired := by simp [filter_phase_operations]
  rw [filterMap_operationsOn (fun op n => Operation.phase_of_createdIndex?) hphase, indexCreations,
    List.filter_map, List.filterMap_map, indexNamesOn, ← List.filterMap_eq_map]
  rfl

/-- The columns that are dropped from a table in place. -/
theorem droppedColumns_on (hc : current.Verified) {t : Table} (ht : current.tables.get? name = some t) :
    ((plan suffixes current desired creationMode).operationsOn name).filterMap Operation.droppedColumn? =
      (entryColumnDrops current desired (name, t)).filterMap Operation.droppedColumn? := by
  have hphase : (operations suffixes current desired creationMode).filter (fun op => op.phase == 4) =
      columnDrops current desired := by simp [filter_phase_operations]
  have hentry : (columnDrops current desired).filter (fun op => op.table = name) =
      entryColumnDrops current desired (name, t) := by
    rw [columnDrops_eq]
    refine Rows.filter_flatMap_rows current.tables.nodup ?_ (OrderedMap.mem_entries_iff_get?.mpr ht)
    intro e he op hop
    obtain ⟨d, -, -, c, -, rfl⟩ := mem_entryColumnDrops hop
    exact (hc.table e.1 e.2 (OrderedMap.mem_entries_iff_get?.mp he)).2.1
  rw [filterMap_operationsOn (fun op c => Operation.phase_of_droppedColumn?) hphase, hentry]

theorem filter_rebuiltTable?_operations :
    (operations suffixes current desired creationMode).filter (fun op => op.rebuiltTable?.isSome) =
      tableRebuilds suffixes current desired := by
  have hphase : ∀ op : Operation, op.rebuiltTable?.isSome = (op.phase == 5) := by
    intro op
    cases op <;> rfl
  simp [hphase, filter_phase_operations]

/-- A table that needs a rebuild is rebuilt once. -/
theorem rebuild_on (hc : current.Verified) (hd : desired.Verified) {r : Rebuild}
    (hr : (rebuilds current desired).get? name = some r) :
    ∃ k, ((plan suffixes current desired creationMode).operationsOn name).filter
        (fun op => op.rebuiltTable?.isSome) =
      [.recreateTable r.current r.desired r.reasons (suffixes k)] := by
  obtain ⟨k, hop⟩ := exists_mem_tableRebuilds suffixes hr
  refine ⟨k, ?_⟩
  obtain ⟨-, rfl⟩ := name_of_rebuild hc hd hr
  have hone := OrderedMap.filter_key_of_mem (nodup_table_tableRebuilds hc hd) hop
  rw [← hone, ← filter_rebuiltTable?_operations]
  exact List.filter_comm _ _ _

/-! ## The change of a kept table -/

def editsOf (current desired : Snapshot) (name : String) (t d : Table) : InPlace where
  addedColumns := []
  removedColumns := columnNames (removedColumns t d)
  addedIndexes := indexNamesOn name (indexesToAdd current desired)
  removedIndexes := indexNamesOn name (indexesToRemove current desired)

/-- A table that is classified as something else than rebuilt is kept. -/
theorem kept_of_get?_changes {change : Change} (h : (changes current desired).get? name = some change)
    (hchange : ∀ reasons, change ≠ .recreate reasons) :
    ∃ t d, current.tables.get? name = some t ∧ desired.tables.get? name = some d ∧
      (rebuilds current desired).get? name = none ∧
      change = .ofInPlace (editsOf current desired name t d) := by
  rw [get?_changes] at h
  obtain ⟨t, ht, h⟩ := Option.bind_eq_some_iff.mp h
  obtain ⟨d, hd, h⟩ := Option.map_eq_some_iff.mp h
  cases hr : (rebuilds current desired).get? name with
  | none =>
    rw [hr] at h
    exact ⟨t, d, ht, hd, rfl, h.symm⟩
  | some r =>
    rw [hr] at h
    exact absurd h.symm (hchange r.reasons)

theorem droppedColumns_on_kept (hc : current.Verified) {t d : Table}
    (ht : current.tables.get? name = some t) (hn : desired.tables.get? name = some d)
    (hnone : (rebuilds current desired).get? name = none) :
    (((plan suffixes current desired creationMode).operationsOn name).filterMap
      Operation.droppedColumn?).map Prod.snd = columnNames (removedColumns t d) := by
  rw [droppedColumns_on hc ht, entryColumnDrops_kept hn hnone, List.filterMap_map]
  show ((removedColumns t d).filterMap fun c => some (t.name, c.name)).map Prod.snd = _
  rw [List.filterMap_eq_map', List.map_map]
  rfl

theorem ofInPlace_eq_incremental {edits edits' : InPlace} (h : Change.ofInPlace edits = .incremental edits') :
    edits = edits' := by
  unfold Change.ofInPlace at h
  split at h
  · cases h
  · exact Change.incremental.inj h

theorem ofInPlace_eq_unchanged {edits : InPlace} (h : Change.ofInPlace edits = .unchanged) :
    edits.removedColumns = [] ∧ edits.addedIndexes = [] ∧ edits.removedIndexes = [] := by
  unfold Change.ofInPlace at h
  split at h
  · next hempty =>
    simp only [Bool.and_eq_true, List.isEmpty_iff] at hempty
    exact ⟨hempty.1.1.2, hempty.1.2, hempty.2⟩
  · cases h

theorem droppedColumns_ofInPlace (edits : InPlace) :
    (Change.ofInPlace edits).droppedColumns = edits.removedColumns := by
  cases hedits : Change.ofInPlace edits with
  | recreate reasons => exact absurd hedits (ofInPlace_ne_recreate edits reasons)
  | incremental edits' => rw [ofInPlace_eq_incremental hedits, Change.droppedColumns]
  | unchanged => rw [(ofInPlace_eq_unchanged hedits).1, Change.droppedColumns]

/-! ## The report -/

theorem contains_changes (hname : current.tables.contains name = true) :
    (changes current desired).contains name = desired.tables.contains name := by
  obtain ⟨t, ht⟩ := OrderedMap.contains_iff.mp hname
  unfold OrderedMap.contains
  rw [get?_changes, ht, Option.bind_some, Option.isSome_map]

theorem keys_changes :
    (changes current desired).keys = current.tables.keys.filter desired.tables.contains := by
  have hkeys : (changes current desired).keys =
      current.tables.keys.filter (changes current desired).contains := OrderedMap.keys_filterMap _ _
  rw [hkeys]
  apply List.filter_congr
  intro n hn
  exact contains_changes (OrderedMap.contains_iff_mem_keys.mpr hn)

/-- The tables that are reported as rebuilt are the rebuilt ones, in the same order. -/
theorem recreatedTables_ofChanges (added removed : List String) :
    (Summary.ofChanges added removed (changes current desired)).recreatedTables =
      (rebuilds current desired).keys := by
  have hreported : (Summary.ofChanges added removed (changes current desired)).recreatedTables =
      ((changes current desired).filterMap fun _ change => change.reasons?).keys := by
    unfold OrderedMap.keys OrderedMap.filterMap
    rw [List.map_filterMap]
    apply List.filterMap_congr
    rintro ⟨n, change⟩ -
    cases change <;> rfl
  have hchanges : (changes current desired).keys =
      current.tables.keys.filter (changes current desired).contains := OrderedMap.keys_filterMap _ _
  have hrebuilds : (rebuilds current desired).keys =
      current.tables.keys.filter (rebuilds current desired).contains := OrderedMap.keys_filterMap _ _
  rw [hreported, OrderedMap.keys_filterMap, hchanges, hrebuilds, List.filter_filter]
  apply List.filter_congr
  intro n _
  rw [Bool.eq_iff_iff, Bool.and_eq_true]
  constructor
  · intro h
    obtain ⟨reasons, hreasons⟩ := OrderedMap.contains_iff.mp h.1
    rw [OrderedMap.get?_filterMap] at hreasons
    obtain ⟨change, hchange, hsome⟩ := Option.bind_eq_some_iff.mp hreasons
    rw [Change.eq_recreate_of_reasons? hsome] at hchange
    obtain ⟨r, hr, -⟩ := get?_changes_eq_recreate_iff.mp hchange
    exact OrderedMap.contains_of_get? hr
  · intro h
    obtain ⟨r, hr⟩ := OrderedMap.contains_iff.mp h
    have hchange := get?_changes_eq_recreate_iff.mpr ⟨r, hr, rfl⟩
    refine ⟨OrderedMap.contains_of_get? (a := r.reasons) ?_, OrderedMap.contains_of_get? hchange⟩
    rw [OrderedMap.get?_filterMap, hchange]
    rfl

/-- No column is added in place. -/
theorem addedColumns_ofChanges (added removed : List String) :
    (Summary.ofChanges added removed (changes current desired)).addedColumns = [] := by
  unfold Summary.ofChanges
  rw [List.flatMap_eq_nil_iff]
  rintro ⟨n, change⟩ he
  cases change with
  | unchanged => rfl
  | recreate reasons => rfl
  | incremental edits =>
    obtain ⟨t, d, -, -, -, hedits⟩ :=
      kept_of_get?_changes (OrderedMap.mem_entries_iff_get?.mp he) (by simp)
    rw [← ofInPlace_eq_incremental hedits.symm]
    rfl

/-- The columns that are reported as removed are the dropped ones, in the same order. -/
theorem removedColumns_ofChanges (hc : current.Verified) (added removed : List String) :
    (Summary.ofChanges added removed (changes current desired)).removedColumns =
      ((columnDrops current desired).filterMap Operation.droppedColumn?).map
        fun c => c.1 ++ "." ++ c.2 := by
  have hreported : (Summary.ofChanges added removed (changes current desired)).removedColumns =
      (changes current desired).entries.flatMap fun e =>
        e.2.droppedColumns.map fun c => e.1 ++ "." ++ c := by
    apply List.flatMap_congr
    rintro ⟨n, change⟩ -
    cases change <;> rfl
  have hentries : ((changes current desired).entries.flatMap fun e =>
        e.2.droppedColumns.map fun c => e.1 ++ "." ++ c) =
      current.tables.entries.flatMap fun e =>
        (((changes current desired).get? e.1).map fun change =>
          change.droppedColumns.map fun c => e.1 ++ "." ++ c).getD [] :=
    OrderedMap.flatMap_entries_filterMap _ _ _
  rw [hreported, hentries, columnDrops_eq, List.filterMap_flatMap, List.map_flatMap]
  apply List.flatMap_congr
  rintro ⟨n, t⟩ he
  have ht := OrderedMap.mem_entries_iff_get?.mp he
  rw [get?_changes, ht, Option.bind_some]
  cases hd : desired.tables.get? n with
  | none => simp [entryColumnDrops, hd]
  | some d =>
    cases hr : (rebuilds current desired).get? n with
    | some r => simp [entryColumnDrops, Change.droppedColumns, hd, OrderedMap.contains_of_get? hr]
    | none =>
      have hname : t.name = n := (hc.table n t ht).2.1
      rw [entryColumnDrops_kept hd hr, Option.map_some, Option.map_some, Option.getD_some,
        droppedColumns_ofInPlace, List.filterMap_map]
      show _ = ((removedColumns t d).filterMap fun c => some (t.name, c.name)).map _
      rw [List.filterMap_eq_map', List.map_map, columnNames, List.map_map, hname]
      rfl

/-- A reference is touched only if some table is rebuilt or created. -/
theorem made_of_reference (hc : current.Verified) (hs : desired.Sound) (hd : desired.Verified)
    {op : Operation} (hop : op ∈ operations suffixes current desired creationMode)
    (hreference : op.isReferenceDrop = true ∨ op.isReferenceAddition = true) :
    (∃ n reasons, (plan suffixes current desired creationMode).Rebuilds n reasons) ∨
      (desired.tablesWithout current).map Table.name ≠ [] := by
  have hrebuilds : ∀ {n : String}, (plan suffixes current desired creationMode).Affects current desired n →
      ∃ n reasons, (plan suffixes current desired creationMode).Rebuilds n reasons := by
    rintro n ⟨t, -, -, ⟨reasons, hrebuilds⟩ | ⟨f, -, reasons, hrebuilds, -⟩⟩
    · exact ⟨n, reasons, hrebuilds⟩
    · exact ⟨f.targetName, reasons, hrebuilds⟩
  cases op with
  | dropForeignKey table column => exact Or.inl (hrebuilds (affects_of_dropForeignKey hc hd hop))
  | addForeignKey table column f =>
    rcases affects_of_addForeignKey hc hs hd hop with haffects | hnew
    · exact Or.inl (hrebuilds haffects)
    · have hadded : Operation.addForeignKey table column f ∈
          (operations suffixes current desired creationMode).filter Operation.isReferenceAddition :=
        List.mem_filter.mpr ⟨hop, rfl⟩
      rw [filter_isReferenceAddition_operations, List.mem_ite_nil_left] at hadded
      obtain ⟨g, hg, c, -, heq⟩ := mem_referenceAdditions hadded.2
      obtain ⟨rfl, -, rfl⟩ := Operation.addForeignKey.inj heq
      exact Or.inr (List.ne_nil_of_mem ((mem_names_tablesWithout hs hd hg).mpr hnew))
  | _ => rcases hreference with h | h <;> cases h

theorem summary_isEmpty_iff {s : Summary} : s.isEmpty = true ↔
    s.addedTables = [] ∧ s.removedTables = [] ∧ s.addedColumns = [] ∧ s.removedColumns = [] ∧
      s.recreatedTables = [] := by
  simp only [Summary.isEmpty, Bool.and_eq_true, List.isEmpty_iff, and_assoc]

theorem addedTables_plan : (plan suffixes current desired creationMode).summary.addedTables =
    (plan suffixes current desired creationMode).operations.filterMap Operation.createdTable? :=
  createdTables_operations.symm

theorem removedTables_plan : (plan suffixes current desired creationMode).summary.removedTables =
    (plan suffixes current desired creationMode).operations.filterMap Operation.droppedTable? :=
  droppedTables_operations.symm

theorem recreatedTables_plan (hc : current.Verified) (hd : desired.Verified) :
    (plan suffixes current desired creationMode).summary.recreatedTables =
      (plan suffixes current desired creationMode).operations.filterMap Operation.rebuiltTable? :=
  (recreatedTables_ofChanges _ _).trans (rebuiltTables_operations hc hd).symm

theorem removedColumns_plan (hc : current.Verified) :
    (plan suffixes current desired creationMode).summary.removedColumns =
      ((plan suffixes current desired creationMode).operations.filterMap
        Operation.droppedColumn?).map fun c => c.1 ++ "." ++ c.2 := by
  have hdropped : (plan suffixes current desired creationMode).operations.filterMap
      Operation.droppedColumn? = (columnDrops current desired).filterMap Operation.droppedColumn? :=
    droppedColumns_operations
  rw [hdropped]
  exact removedColumns_ofChanges hc _ _

/-- A report is empty exactly if indexes are all that changes: references come and go with tables. -/
theorem isEmpty_summary_plan_iff (hc : current.Verified) (hs : desired.Sound) (hd : desired.Verified) :
    (plan suffixes current desired creationMode).summary.isEmpty = true ↔
      ∀ op ∈ (plan suffixes current desired creationMode).operations, op.IsOnIndex := by
  rw [summary_isEmpty_iff, addedTables_plan, removedTables_plan, removedColumns_plan hc,
    recreatedTables_plan hc hd, List.map_eq_nil_iff]
  constructor
  · intro h
    rcases h with ⟨hadded, hremoved, -, hcolumns, hrebuilt⟩
    rw [List.filterMap_eq_nil_iff] at hremoved hcolumns hrebuilt
    have hreference : ∀ op ∈ (plan suffixes current desired creationMode).operations,
        ¬ (op.isReferenceDrop = true ∨ op.isReferenceAddition = true) := by
      intro op hop hreference
      rcases made_of_reference hc hs hd hop hreference with ⟨n, reasons, t, d, suffix, hmem, -⟩ | hmade
      · cases hrebuilt _ hmem
      · exact hmade (createdTables_operations.symm.trans hadded)
    rw [List.filterMap_eq_nil_iff] at hadded
    intro op hop
    -- Whatever is not on an index stands in the report, or is a reference.
    rcases mem_operations.mp hop with h | h | h | h | h | h | ⟨-, h⟩ | h
    · obtain ⟨n, i, -, rfl⟩ := mem_indexDrops.mp h
      exact Or.inl rfl
    · obtain ⟨f, -, c, -, rfl⟩ := mem_referenceDrops h
      exact absurd (Or.inl rfl) (hreference _ hop)
    · obtain ⟨d, -, -, rfl⟩ := hd.mem_tableCreations.mp h
      cases hadded _ hop
    · obtain ⟨t, -, -, rfl⟩ := hc.mem_tableDrops.mp h
      cases hremoved _ hop
    · obtain ⟨n, t, d, -, -, -, c, -, rfl⟩ := mem_columnDrops.mp h
      cases hcolumns _ hop
    · obtain ⟨n, r, k, -, rfl⟩ := mem_tableRebuilds h
      cases hrebuilt _ hop
    · obtain ⟨f, -, c, -, rfl⟩ := mem_referenceAdditions h
      exact absurd (Or.inr rfl) (hreference _ hop)
    · obtain ⟨n, i, -, rfl⟩ := mem_indexCreations.mp h
      exact Or.inr rfl
  · intro h
    exact ⟨Operation.filterMap_eq_nil_of_isOnIndex
        (fun op n => Operation.phase_of_createdTable?) (by omega) h,
      Operation.filterMap_eq_nil_of_isOnIndex
        (fun op n => Operation.phase_of_droppedTable?) (by omega) h,
      addedColumns_ofChanges _ _,
      Operation.filterMap_eq_nil_of_isOnIndex
        (fun op c => Operation.phase_of_droppedColumn?) (by omega) h,
      Operation.filterMap_eq_nil_of_isOnIndex
        (fun op n => Operation.phase_of_rebuiltTable?) (by omega) h⟩

/-- Nothing but references is touched on a table that is classified as unchanged. -/
theorem reference_of_unchanged (hc : current.Verified) (hd : desired.Verified)
    (h : (changes current desired).get? name = some .unchanged) :
    ∀ op ∈ (plan suffixes current desired creationMode).operationsOn name,
      op.isReferenceDrop = true ∨ op.isReferenceAddition = true := by
  obtain ⟨t, d, ht, hn, hnone, hedits⟩ := kept_of_get?_changes h (by simp)
  obtain ⟨hcolumns, hadded, hremoved⟩ := ofInPlace_eq_unchanged hedits.symm
  replace hcolumns : columnNames (removedColumns t d) = [] := hcolumns
  replace hadded : indexNamesOn name (indexesToAdd current desired) = [] := hadded
  replace hremoved : indexNamesOn name (indexesToRemove current desired) = [] := hremoved
  rw [← droppedColumns_on_kept hc ht hn hnone, List.map_eq_nil_iff, List.filterMap_eq_nil_iff]
    at hcolumns
  rw [← createdIndexes_on, List.filterMap_eq_nil_iff] at hadded
  rw [← droppedIndexes_on, List.filterMap_eq_nil_iff] at hremoved
  intro op hop
  obtain ⟨hmem, hname⟩ := List.mem_filter.mp hop
  replace hname : op.table = name := of_decide_eq_true hname
  rcases mem_operations.mp hmem with h | h | h | h | h | h | ⟨-, h⟩ | h
  · obtain ⟨n, i, -, rfl⟩ := mem_indexDrops.mp h
    cases hremoved _ hop
  · obtain ⟨f, -, c, -, rfl⟩ := mem_referenceDrops h
    exact Or.inl rfl
  · obtain ⟨u, -, hnew, rfl⟩ := hd.mem_tableCreations.mp h
    rw [show u.name = name from hname, ht] at hnew
    cases hnew
  · obtain ⟨u, -, hgone, rfl⟩ := hc.mem_tableDrops.mp h
    rw [show u.name = name from hname, hn] at hgone
    cases hgone
  · obtain ⟨n, u, v, -, -, -, c, -, rfl⟩ := mem_columnDrops.mp h
    cases hcolumns _ hop
  · obtain ⟨n, r, k, hr, rfl⟩ := mem_tableRebuilds h
    rw [← (name_of_rebuild hc hd hr).2, show r.desired.name = name from hname, hnone] at hr
    cases hr
  · obtain ⟨f, -, c, -, rfl⟩ := mem_referenceAdditions h
    exact Or.inr rfl
  · obtain ⟨n, i, -, rfl⟩ := mem_indexCreations.mp h
    cases hadded _ hop

theorem keepsName_operations (hc : current.Verified) (hd : desired.Verified) :
    ∀ op ∈ operations suffixes current desired creationMode, op.KeepsName := by
  intro op hop
  cases op with
  | recreateTable t d reasons suffix =>
    have hmem : Operation.recreateTable t d reasons suffix ∈
        (operations suffixes current desired creationMode).filter fun op => op.rebuiltTable?.isSome :=
      List.mem_filter.mpr ⟨hop, rfl⟩
    rw [filter_rebuiltTable?_operations] at hmem
    exact keepsName_tableRebuilds hc hd _ hmem
  | _ => trivial

/-- **The report is what is done**: for snapshots that can be planned for there is a plan, and its
operations are what its report says, table by table and in order. -/
theorem diff_accounts (suffixes : Nat → String) {current desired : Snapshot} {creationMode : Bool}
    (hd : desired.Reachable) (h : current.Plannable desired creationMode) :
    ∃ p, diff suffixes current desired creationMode = .ok p ∧ p.Accounts current desired := by
  have hcv := verify_eq_ok_iff.mp h.verifiedCurrent
  have hdv := verify_eq_ok_iff.mp h.verifiedDesired
  refine ⟨_, h.diff_eq suffixes, ?_⟩
  exact {
    keys := keys_changes
    keepsName := keepsName_operations hcv hdv
    rebuilt_iff := by
      intro name
      have hkeys : name ∈ (plan suffixes current desired creationMode).operations.filterMap
          Operation.rebuiltTable? ↔ name ∈ (rebuilds current desired).keys := by
        rw [← rebuiltTables_operations hcv hdv]
        rfl
      rw [← List.mem_filterMap, hkeys, OrderedMap.mem_keys_iff]
      constructor
      · intro h
        rcases h with ⟨reasons, hchange⟩
        obtain ⟨r, hr, -⟩ := get?_changes_eq_recreate_iff.mp hchange
        exact ⟨r, hr⟩
      · intro h
        rcases h with ⟨r, hr⟩
        exact ⟨r.reasons, get?_changes_eq_recreate_iff.mpr ⟨r, hr, rfl⟩⟩
    rebuilt := by
      intro name reasons hchange
      obtain ⟨r, hr, rfl⟩ := get?_changes_eq_recreate_iff.mp hchange
      obtain ⟨k, hone⟩ := rebuild_on hcv hdv hr
      have hnone : entryColumnDrops current desired (name, r.current) = [] := by
        simp [entryColumnDrops, get?_desired_of_rebuild hr, OrderedMap.contains_of_get? hr]
      refine ⟨⟨r.current, r.desired, suffixes k, get?_current_of_rebuild hr,
        get?_desired_of_rebuild hr, hone⟩, ?_⟩
      rw [droppedColumns_on hcv (get?_current_of_rebuild hr), hnone]
      rfl
    inPlace := by
      intro name edits hchange
      obtain ⟨t, d, ht, hn, hnone, hedits⟩ := kept_of_get?_changes hchange (by simp)
      rw [← ofInPlace_eq_incremental hedits.symm]
      exact ⟨rfl, (droppedColumns_on_kept hcv ht hn hnone).symm, droppedIndexes_on.symm,
        createdIndexes_on.symm⟩
    unchanged := fun name hchange => reference_of_unchanged hcv hdv hchange
    addedTables := addedTables_plan
    removedTables := removedTables_plan
    recreatedTables := recreatedTables_plan hcv hdv
    removedColumns := removedColumns_plan hcv
    isEmpty_iff := isEmpty_summary_plan_iff hcv (hd.sound h.verifiedDesired) hdv }

theorem diff_accounts_earlier_later :
    Plannable (ofCommands earlier) (ofCommands later) false ∧
      ∃ p, diff Nat.repr (ofCommands earlier) (ofCommands later) false = .ok p ∧
        p.Accounts (ofCommands earlier) (ofCommands later) :=
  ⟨plannable_earlier_later, diff_accounts Nat.repr (reachable_ofCommands (by decide) (by decide))
    plannable_earlier_later⟩

end Snapshot
end SchemaSync
