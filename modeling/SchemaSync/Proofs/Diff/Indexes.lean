import SchemaSync.Proofs.Diff.Cascade
import SchemaSync.Proofs.Diff.FixedPoint

/-!
# Indexes through a plan

Indexes go by name across the whole of a snapshot, and a name may move between tables that stay, go, are
rebuilt or are new. `indexes_operations` follows one name through a plan. Until indexes are created, a
desired index that is not to be added stands where it stood, since nothing drops it or its table; every
other name has been freed, by a drop of its index or of its table. The creations then fill exactly the
names that are to be added, and that leaves the desired indexes.
-/

namespace SchemaSync

/-! ## Operations on one index -/

namespace Operation

def droppedIndex? : Operation → Option String
  | dropIndex _ name => some name
  | _ => none

def createdIndex? : Operation → Option String
  | createIndex _ name _ => some name
  | _ => none

theorem phase_of_droppedIndex? {op : Operation} {n : String} (h : op.droppedIndex? = some n) :
    op.phase = 0 := by
  cases op with
  | dropIndex table name => rfl
  | _ => cases h

theorem phase_of_createdIndex? {op : Operation} {n : String} (h : op.createdIndex? = some n) :
    op.phase = 7 := by
  cases op with
  | createIndex table name columns => rfl
  | _ => cases h

/-- What is found in operations of one phase only is found in the operations of that phase. -/
theorem filterMap_eq_filter_phase {α : Type} {f : Operation → Option α} {k : Nat}
    (h : ∀ op a, f op = some a → op.phase = k) (ops : List Operation) :
    ops.filterMap f = (ops.filter fun op => op.phase == k).filterMap f := by
  rw [List.filterMap_filter]
  apply List.filterMap_congr
  intro op _
  cases hop : f op with
  | none => exact (ite_self _).symm
  | some a =>
      have hphase : (op.phase == k) = true := beq_iff_eq.mpr (h op a hop)
      rw [if_pos hphase]

end Operation

namespace Snapshot

variable {current desired : Snapshot} {suffixes : Nat → String} {creationMode : Bool} {n : String}

/-! ## Names that are dropped and created -/

theorem droppedIndexes_operations :
    (operations suffixes current desired creationMode).filterMap Operation.droppedIndex? =
      (indexesToRemove current desired).values.map Index.name := by
  rw [Operation.filterMap_eq_filter_phase fun op n => Operation.phase_of_droppedIndex?,
    filter_phase_operations]
  simp [indexDrops, Operation.droppedIndex?, List.filterMap_map]

theorem createdIndexes_operations :
    (operations suffixes current desired creationMode).filterMap Operation.createdIndex? =
      (indexesToAdd current desired).values.map Index.name := by
  rw [Operation.filterMap_eq_filter_phase fun op n => Operation.phase_of_createdIndex?,
    filter_phase_operations]
  simp [indexCreations, Operation.createdIndex?, List.filterMap_map]

theorem name_of_indexesToRemove (hs : current.Sound) (hc : current.Verified) {i : Index}
    (h : (indexesToRemove current desired).get? n = some i) : i.name = n :=
  hc.name_indexesByName ((get?_indexesToRemove hs hc).mp h).1

theorem name_of_indexesToAdd (hs : desired.Sound) (hd : desired.Verified) {i : Index}
    (h : (indexesToAdd current desired).get? n = some i) : i.name = n :=
  hd.name_indexesByName ((get?_indexesToAdd hs hd).mp h).1

/-- No index name is dropped twice. -/
theorem nodup_droppedIndexes (hs : current.Sound) (hc : current.Verified) :
    ((operations suffixes current desired creationMode).filterMap Operation.droppedIndex?).Nodup := by
  rw [droppedIndexes_operations]
  exact OrderedMap.nodup_map_values fun _ _ => name_of_indexesToRemove hs hc

/-- No index name is created twice. -/
theorem nodup_createdIndexes (hs : desired.Sound) (hd : desired.Verified) :
    ((operations suffixes current desired creationMode).filterMap Operation.createdIndex?).Nodup := by
  rw [createdIndexes_operations]
  exact OrderedMap.nodup_map_values fun _ _ => name_of_indexesToAdd hs hd

/-- An index is dropped by itself exactly if it is to be removed. -/
theorem mem_droppedIndexes_iff (hs : current.Sound) (hc : current.Verified) :
    n ∈ (operations suffixes current desired creationMode).filterMap Operation.droppedIndex? ↔
      ∃ i, (indexesToRemove current desired).get? n = some i := by
  rw [droppedIndexes_operations,
    OrderedMap.map_values_eq_keys fun _ _ => name_of_indexesToRemove hs hc, OrderedMap.mem_keys_iff]

/-- An index is created exactly if it is to be added. -/
theorem mem_createdIndexes_iff (hs : desired.Sound) (hd : desired.Verified) :
    n ∈ (operations suffixes current desired creationMode).filterMap Operation.createdIndex? ↔
      ∃ i, (indexesToAdd current desired).get? n = some i := by
  rw [createdIndexes_operations,
    OrderedMap.map_values_eq_keys fun _ _ => name_of_indexesToAdd hs hd, OrderedMap.mem_keys_iff]

/-! ## One name until indexes are created -/

/-- A name that is not desired is freed. -/
theorem indexes_tableChanges_gone (hs : current.Sound) (hc : current.Verified) (hd : desired.Verified)
    (hn : desired.indexesByName.get? n = none) :
    (current.database.run (tableChanges suffixes current desired)).indexes.get? n = none := by
  apply indexes_tableChanges_of_removed hs hc hd
  intro c hcurrent
  cases howner : desired.tables.get? c.ownerName with
  | none => exact Or.inr rfl
  | some d =>
      refine Or.inl ((get?_indexesToRemove hs hc).mpr ⟨hcurrent, Or.inl ⟨?_, ?_⟩⟩)
      · exact OrderedMap.contains_of_get? howner
      · intro j hj
        rw [hn] at hj
        cases hj

/-- A desired index that is not to be added stands unchanged on a table that is not rebuilt. -/
theorem exists_unchanged (hs : desired.Sound) (hd : desired.Verified) {i : Index}
    (hi : desired.indexesByName.get? n = some i)
    (hkept : (indexesToAdd current desired).get? n = none) :
    ∃ c, current.indexesByName.get? n = some c ∧ indexChanged c i = false ∧
      (rebuilds current desired).get? i.ownerName = none := by
  have hreasons : ¬ ((∀ c, current.indexesByName.get? n = some c → indexChanged c i = true) ∨
      (rebuilds current desired).contains i.ownerName = true) := by
    intro hreason
    rw [(get?_indexesToAdd hs hd).mpr ⟨hi, hreason⟩] at hkept
    cases hkept
  rw [not_or] at hreasons
  obtain ⟨hunchanged, hnot⟩ := hreasons
  simp only [not_forall, Bool.not_eq_true] at hunchanged
  obtain ⟨c, hc, hsame⟩ := hunchanged
  exact ⟨c, hc, hsame, OrderedMap.contains_eq_false_iff.mp (Bool.not_eq_true _ ▸ hnot)⟩

/-- An index that is desired unchanged, on a table that is not rebuilt, is not to be removed. -/
theorem indexesToRemove_of_unchanged (hs : current.Sound) (hc : current.Verified) {c i : Index}
    (hcurrent : current.indexesByName.get? n = some c) (hi : desired.indexesByName.get? n = some i)
    (hsame : indexChanged c i = false) (hnot : (rebuilds current desired).get? i.ownerName = none) :
    (indexesToRemove current desired).get? n = none := by
  obtain ⟨howner, -⟩ := indexChanged_eq_false_iff.mp hsame
  rw [Option.eq_none_iff_forall_ne_some]
  intro j hj
  obtain ⟨hfound, hreason⟩ := (get?_indexesToRemove hs hc).mp hj
  rw [hcurrent] at hfound
  cases hfound
  rcases hreason with ⟨-, hchanged⟩ | hrebuilt
  · rw [hchanged i hi] at hsame
    cases hsame
  · rw [howner, OrderedMap.contains_eq_false_iff.mpr hnot] at hrebuilt
    cases hrebuilt

/-- An index that is desired unchanged, on a table that is not rebuilt, survives the changes of the
tables. -/
theorem indexes_tableChanges_kept (hcs : current.Sound) (hds : desired.Sound) (hc : current.Verified)
    (hd : desired.Verified) {c i : Index} (hcurrent : current.indexesByName.get? n = some c)
    (hi : desired.indexesByName.get? n = some i) (hsame : indexChanged c i = false)
    (hnot : (rebuilds current desired).get? i.ownerName = none) :
    (current.database.run (tableChanges suffixes current desired)).indexes.get? n = some c.form := by
  obtain ⟨howner, -⟩ := indexChanged_eq_false_iff.mp hsame
  have hstays : ∀ name, c.form.table ≠ name →
      (some c.form).filter (fun i => i.table != name) = some c.form :=
    fun name hne => if_pos (bne_iff_ne.mpr hne)
  rw [Database.get?_indexes_run, get?_indexes_database, hcurrent, Option.map_some]
  apply foldl_eq_of_fixed
  intro op hop
  simp only [tableChanges, List.mem_append, or_assoc] at hop
  -- Only three of the phases touch indexes, and none of them this one.
  rcases hop with h | h | h | h | h | h
  · obtain ⟨m, j, hj, rfl⟩ := mem_indexDrops.mp h
    refine if_neg fun hname => ?_
    rw [name_of_indexesToRemove hcs hc hj] at hname
    rw [hname, indexesToRemove_of_unchanged hcs hc hcurrent hi hsame hnot] at hj
    cases hj
  · obtain ⟨f, -, x, -, rfl⟩ := mem_referenceDrops h
    rfl
  · obtain ⟨d, -, -, rfl⟩ := hd.mem_tableCreations.mp h
    rfl
  · obtain ⟨t, -, hgone, rfl⟩ := hc.mem_tableDrops.mp h
    apply hstays
    intro hname
    obtain ⟨d, hdesired, -⟩ := hds.owner_indexesByName hd hi
    rw [← howner, show c.ownerName = t.name from hname, hgone] at hdesired
    cases hdesired
  · obtain ⟨m, t, d, -, -, -, x, -, rfl⟩ := mem_columnDrops.mp h
    rfl
  · obtain ⟨m, r, k, hr, rfl⟩ := mem_tableRebuilds h
    apply hstays
    intro hname
    rw [← howner, show c.ownerName = r.current.name from hname, (name_of_rebuild hc hd hr).1, hr]
      at hnot
    cases hnot

/-! ## The whole plan -/

/-- The creations fill the free names among those to be added. -/
theorem indexes_indexCreations (hs : desired.Sound) (hd : desired.Verified) (db : Database) :
    (db.run (indexCreations current desired)).indexes.get? n =
      (db.indexes.get? n).or (((indexesToAdd current desired).get? n).map fun i =>
        ⟨i.ownerName, columnNames i.columns, false⟩) := by
  rw [Database.get?_indexes_run]
  cases hadd : (indexesToAdd current desired).get? n with
  | none =>
      rw [Option.map_none, Option.or_none]
      apply foldl_eq_self
      intro op hop x
      obtain ⟨m, i, hi, rfl⟩ := mem_indexCreations.mp hop
      have hname : i.name ≠ n := by
        intro hname
        rw [name_of_indexesToAdd hs hd hi] at hname
        rw [hname, hadd] at hi
        cases hi
      show x.or (if i.name = n then _ else none) = x
      rw [if_neg hname, Option.or_none]
  | some i =>
      have hname : i.name = n := name_of_indexesToAdd hs hd hadd
      have hnodup : ((indexesToAdd current desired).values.map Index.name).Nodup :=
        OrderedMap.nodup_map_values fun _ _ => name_of_indexesToAdd hs hd
      unfold indexCreations
      rw [List.foldl_map, foldl_eq_single hnodup (OrderedMap.mem_values_of_get? hadd)]
      · show (db.indexes.get? n).or (if i.name = n then _ else none) = _
        rw [if_pos hname, Option.map_some]
      · intro j _ hne x
        have hother : j.name ≠ n := hname ▸ hne
        show x.or (if j.name = n then _ else none) = x
        rw [if_neg hother, Option.or_none]

/-- A plan leaves the desired indexes. -/
theorem indexes_operations (hcs : current.Sound) (hds : desired.Sound) (hc : current.Verified)
    (hd : desired.Verified) (hunique : desired.uniqueIndexes = []) :
    (current.database.run (operations suffixes current desired creationMode)).indexes.get? n =
      (desired.indexesByName.get? n).map Index.form := by
  rw [operations_eq, Database.run_append, Database.run_append, run_attachments,
    indexes_indexCreations hds hd]
  cases hadd : (indexesToAdd current desired).get? n with
  | some i =>
      obtain ⟨hi, -⟩ := (get?_indexesToAdd hds hd).mp hadd
      obtain ⟨t, ht, hti⟩ := hds.owner_indexesByName hd hi
      have hplain : i.unique = false := uniqueIndexes_eq_nil_iff.mp hunique _ t ht n i hti
      rw [indexes_tableChanges hcs hds hc hd hadd, hi, Option.none_or, Option.map_some,
        Option.map_some, Index.form, hplain]
  | none =>
      rw [Option.map_none, Option.or_none]
      cases hi : desired.indexesByName.get? n with
      | none => exact indexes_tableChanges_gone hcs hc hd hi
      | some i =>
          obtain ⟨c, hcurrent, hsame, hnot⟩ := exists_unchanged hds hd hi hadd
          have hform : c.form = i.form := by
            obtain ⟨howner, hplain, -, hcolumns⟩ := indexChanged_eq_false_iff.mp hsame
            rw [Index.form, Index.form, howner, hplain, hcolumns]
          rw [indexes_tableChanges_kept hcs hds hc hd hcurrent hi hsame hnot, hform,
            Option.map_some]

/-- The indexes of a verified snapshot's database are those of its tables. -/
theorem mem_indexes_database_iff {s : Snapshot} (hs : s.Sound) (hv : s.Verified)
    (hunique : s.uniqueIndexes = []) {f : IndexForm} :
    (s.indexesByName.get? n).map Index.form = some f ↔
      ∃ name t i, s.tables.get? name = some t ∧ t.indexes.get? n = some i ∧
        f = ⟨name, columnNames i.columns, false⟩ := by
  have hform : ∀ name t i, s.tables.get? name = some t → t.indexes.get? n = some i →
      i.form = ⟨name, columnNames i.columns, false⟩ := by
    intro name t i ht hi
    obtain ⟨hname, htable⟩ := hs.table name t ht
    obtain ⟨-, howner, -⟩ := htable.index n i hi
    rw [Index.form, howner, hname, uniqueIndexes_eq_nil_iff.mp hunique name t ht n i hi]
  rw [Option.map_eq_some_iff]
  constructor
  · intro h
    rcases h with ⟨i, hi, rfl⟩
    obtain ⟨name, t, ht, hti⟩ := hv.get?_indexesByName.mp hi
    exact ⟨name, t, i, ht, hti, hform name t i ht hti⟩
  · intro h
    rcases h with ⟨name, t, i, ht, hti, rfl⟩
    exact ⟨i, hv.get?_indexesByName.mpr ⟨name, t, ht, hti⟩, hform name t i ht hti⟩

end Snapshot

/-! ## Reconciliation -/

/-- What a plan does to indexes. -/
structure Plan.Reconciles (p : Plan) (current desired : Snapshot) : Prop where
  /-- From the indexes of `current` the operations lead to those of `desired`: each under its name, on
  its table and over its columns in order, none unique, and no others. -/
  result : ∀ n f, (current.database.run p.operations).indexes.get? n = some f ↔
    ∃ name t i, desired.tables.get? name = some t ∧ t.indexes.get? n = some i ∧
      f = ⟨name, columnNames i.columns, false⟩
  /-- No index name is dropped twice. -/
  dropped : (p.operations.filterMap Operation.droppedIndex?).Nodup
  /-- No index name is created twice. -/
  created : (p.operations.filterMap Operation.createdIndex?).Nodup
  /-- An index that is the same in both snapshots is left alone if its table is not rebuilt. -/
  minimal : ∀ name t d n i j, current.tables.get? name = some t → desired.tables.get? name = some d →
    t.indexes.get? n = some i → d.indexes.get? n = some j → columnNames i.columns = columnNames j.columns →
      i.unique = j.unique → (∀ reasons, ¬ p.Rebuilds name reasons) →
        ∀ op ∈ p.operations, op.droppedIndex? ≠ some n ∧ op.createdIndex? ≠ some n

namespace Snapshot

variable {current desired : Snapshot} {suffixes : Nat → String} {creationMode : Bool} {n : String}

/-- An index that stands unchanged on a table that is not rebuilt is neither to be removed nor to be
added. -/
theorem untouched_of_unchanged (hcs : current.Sound) (hds : desired.Sound) (hc : current.Verified)
    (hd : desired.Verified) {c i : Index} (hcurrent : current.indexesByName.get? n = some c)
    (hi : desired.indexesByName.get? n = some i) (hsame : indexChanged c i = false)
    (hnot : (rebuilds current desired).get? i.ownerName = none) :
    ∀ op ∈ operations suffixes current desired creationMode,
      op.droppedIndex? ≠ some n ∧ op.createdIndex? ≠ some n := by
  intro op hop
  constructor
  · intro hdropped
    have hmem := List.mem_filterMap.mpr ⟨op, hop, hdropped⟩
    obtain ⟨j, hj⟩ := (mem_droppedIndexes_iff hcs hc).mp hmem
    rw [indexesToRemove_of_unchanged hcs hc hcurrent hi hsame hnot] at hj
    cases hj
  · intro hcreated
    have hmem := List.mem_filterMap.mpr ⟨op, hop, hcreated⟩
    obtain ⟨j, hj⟩ := (mem_createdIndexes_iff hds hd).mp hmem
    obtain ⟨hfound, hreason⟩ := (get?_indexesToAdd hds hd).mp hj
    rw [hi] at hfound
    cases hfound
    rcases hreason with hchanged | hrebuilt
    · rw [hchanged c hcurrent] at hsame
      cases hsame
    · rw [OrderedMap.contains_eq_false_iff.mpr hnot] at hrebuilt
      cases hrebuilt

/-- **The reconciliation of indexes**: for reachable snapshots that can be planned for there is a plan. It
leaves exactly the desired indexes, drops and creates no index name twice, and leaves alone every index
that is the same in both snapshots and whose table is not rebuilt. -/
theorem diff_reconciles (suffixes : Nat → String) {current desired : Snapshot} {creationMode : Bool}
    (hc : current.Reachable) (hd : desired.Reachable)
    (h : current.Plannable desired creationMode) :
    ∃ p, diff suffixes current desired creationMode = .ok p ∧ p.Reconciles current desired := by
  have hcs := hc.sound h.verifiedCurrent
  have hds := hd.sound h.verifiedDesired
  have hcv := verify_eq_ok_iff.mp h.verifiedCurrent
  have hdv := verify_eq_ok_iff.mp h.verifiedDesired
  refine ⟨_, h.diff_eq suffixes, ?_, nodup_droppedIndexes hcs hcv, nodup_createdIndexes hds hdv, ?_⟩
  · intro n f
    show (current.database.run (operations suffixes current desired creationMode)).indexes.get? n =
      some f ↔ _
    rw [indexes_operations hcs hds hcv hdv h.noUnique]
    exact mem_indexes_database_iff hds hdv h.noUnique
  · intro name t d n i j ht hn hti hdj hcolumns hunique hrebuilds
    obtain ⟨htname, htable⟩ := hcs.table name t ht
    obtain ⟨hdname, hdtable⟩ := hds.table name d hn
    obtain ⟨hiname, hiowner, -⟩ := htable.index n i hti
    obtain ⟨hjname, hjowner, -⟩ := hdtable.index n j hdj
    have hsame : indexChanged i j = false := indexChanged_eq_false_iff.mpr
      ⟨by rw [hiowner, hjowner, htname, hdname], hunique, by rw [hiname, hjname], hcolumns⟩
    have hnot : (rebuilds current desired).get? j.ownerName = none := by
      rw [hjowner, hdname, Option.eq_none_iff_forall_ne_some]
      intro r hr
      exact hrebuilds r.reasons ((plan_rebuilds_iff hcv hdv).mpr ⟨r, hr, rfl⟩)
    exact untouched_of_unchanged hcs hds hcv hdv (hcv.get?_indexesByName.mpr ⟨name, t, ht, hti⟩)
      (hdv.get?_indexesByName.mpr ⟨name, d, hn, hdj⟩) hsame hnot

theorem diff_reconciles_earlier_later :
    Plannable (ofCommands earlier) (ofCommands later) false ∧
      ∃ p, diff Nat.repr (ofCommands earlier) (ofCommands later) false = .ok p ∧
        p.Reconciles (ofCommands earlier) (ofCommands later) :=
  ⟨plannable_earlier_later, diff_reconciles Nat.repr (reachable_ofCommands (by decide) (by decide))
    (reachable_ofCommands (by decide) (by decide)) plannable_earlier_later⟩

end Snapshot
end SchemaSync
