import SchemaSync.Proofs.Diff.Executable

/-!
# Every phase begins ready

The operations of a phase are all ready when the phase begins. The phases that drop things find what
`current` holds, since nothing has touched it yet. The last two need all that comes before: a reference
or an index finds the desired columns, because a plan leaves every table with the desired columns
(`Snapshot.columns_tableChanges`), and an index finds its name free (`Snapshot.indexes_tableChanges`).
-/

namespace SchemaSync

/-! ## What a snapshot's database holds -/

theorem Table.get?_columns_form {t : Table} {name : String} :
    t.form.columns.get? name = (t.columns.get? name).map Column.form := OrderedMap.get?_map _ _ _

theorem Table.Holds.contains_form {t : Table} {x : Column} (h : t.Holds x) :
    t.form.columns.contains x.name = true := by
  have hform : t.form.columns.get? x.name = some x.form := by
    rw [Table.get?_columns_form, show t.columns.get? x.name = some x from h, Option.map_some]
  exact OrderedMap.contains_of_get? hform

/-- Forms with the same columns hold the same column names. -/
theorem TableForm.SameColumns.contains {f g : TableForm} (h : f.SameColumns g) {name : String}
    (hname : g.columns.contains name = true) : f.columns.contains name = true := by
  obtain ⟨x, hx⟩ := OrderedMap.contains_iff.mp hname
  have hsame := h name
  rw [hx, Option.map_some] at hsame
  obtain ⟨y, hy, -⟩ := Option.map_eq_some_iff.mp hsame
  exact OrderedMap.contains_of_get? hy

namespace Snapshot

theorem get?_indexes_database {s : Snapshot} {name : String} :
    s.database.indexes.get? name = (s.indexesByName.get? name).map Index.form :=
  OrderedMap.get?_map _ _ _

theorem get?_tables_database_of_get? {s : Snapshot} {name : String} {t : Table}
    (h : s.tables.get? name = some t) : s.database.tables.get? name = some t.form := by
  rw [get?_tables_database, h, Option.map_some]

/-- The table that a foreign key stands on. -/
theorem Sound.owner_of_foreignKey {s : Snapshot} (hs : s.Sound) {f : ForeignKey}
    (hf : f ∈ s.allForeignKeys) : ∃ t, s.tables.get? f.ownerName = some t ∧ f ∈ t.foreignKeys := by
  obtain ⟨t, ht, hmem⟩ := List.mem_flatMap.mp hf
  obtain ⟨name, ht⟩ := OrderedMap.mem_values_iff.mp ht
  obtain ⟨hname, htable⟩ := hs.table name t ht
  obtain ⟨howner, -⟩ := htable.foreignKey f hmem
  refine ⟨t, ?_, hmem⟩
  rw [howner, hname]
  exact ht

/-- The table and the single column that a reference starts from. -/
theorem Sound.owner_of_singleColumn {s : Snapshot} (hs : s.Sound) {f : ForeignKey} {c : Column}
    (hf : f ∈ s.allForeignKeys) (hc : f.singleColumn? = some c) :
    ∃ t, s.tables.get? f.ownerName = some t ∧ f ∈ t.foreignKeys ∧ f.localColumns = [c] ∧
      t.Holds c := by
  obtain ⟨t, ht, hmem⟩ := hs.owner_of_foreignKey hf
  obtain ⟨-, -, hheld, -⟩ := (hs.table _ t ht).2.foreignKey f hmem
  have hlocal : f.localColumns = [c] := by
    unfold ForeignKey.singleColumn? at hc
    split at hc
    · next x hx =>
      rw [hx, Option.some.inj hc]
    · cases hc
  refine ⟨t, ht, hmem, hlocal, ?_⟩
  apply hheld
  rw [hlocal]
  exact List.mem_singleton_self c

/-- The table and the single column that a reference leads to. -/
theorem Sound.target_of_singleColumn {s : Snapshot} (hs : s.Sound) {f : ForeignKey} {c : Column}
    (hf : f ∈ s.allForeignKeys) (hc : f.singleColumn? = some c) :
    ∃ d x, s.tables.get? f.targetName = some d ∧ f.foreignColumns = [x] ∧ d.Holds x := by
  obtain ⟨t, ht, hmem, hlocal, -⟩ := hs.owner_of_singleColumn hf hc
  obtain ⟨d, hd, hheld, -⟩ := hs.target _ t ht f hmem
  obtain ⟨-, hverified, -⟩ := (hs.table _ t ht).2.foreignKey f hmem
  have hlength : f.foreignColumns.length = 1 := by
    rw [hverified.length_eq, hlocal]
    rfl
  obtain ⟨x, hx⟩ := List.length_eq_one_iff.mp hlength
  refine ⟨d, x, hd, hx, ?_⟩
  apply hheld
  rw [hx]
  exact List.mem_singleton_self x

end Snapshot

/-! ## Phases that find what `current` holds -/

namespace Snapshot

variable {current desired : Snapshot} {suffixes : Nat → String} {creationMode : Bool}

theorem executable_indexDrops (hs : current.Sound) (hc : current.Verified) :
    Executable current.database (indexDrops current desired) := by
  refine executable_of_stable ?_ (stable_indexDrops hs hc)
  intro op hop
  obtain ⟨n, i, hi, rfl⟩ := mem_indexDrops.mp hop
  obtain ⟨hfound, -⟩ := (get?_indexesToRemove hs hc).mp hi
  refine ⟨i.form, ?_, rfl⟩
  rw [hc.name_indexesByName hfound, get?_indexes_database, hfound, Option.map_some]

theorem executable_referenceDrops (hs : current.Sound) :
    Executable (current.database.run (indexDrops current desired)) (referenceDrops current desired) := by
  refine executable_of_stable ?_ stable_referenceDrops
  intro op hop
  obtain ⟨f, hf, c, hc, rfl⟩ := mem_referenceDrops hop
  obtain ⟨t, ht, -, -, hheld⟩ := hs.owner_of_singleColumn hf hc
  refine ⟨t.form, ?_, hheld.contains_form⟩
  rw [tables_indexDrops]
  exact get?_tables_database_of_get? ht

theorem executable_tableCreations (hd : desired.Verified) :
    Executable (current.database.run (indexDrops current desired)) (tableCreations current desired) := by
  refine executable_of_stable ?_ (stable_tableCreations hd)
  intro op hop
  obtain ⟨d, -, hnew, rfl⟩ := hd.mem_tableCreations.mp hop
  show (current.database.run _).tables.get? d.name = none
  rw [tables_indexDrops, get?_tables_database, hnew, Option.map_none]

theorem executable_tableDrops (hc : current.Verified) (hd : desired.Verified) :
    Executable ((current.database.run (indexDrops current desired)).run
      (tableCreations current desired)) (tableDrops current desired) := by
  refine executable_of_stable ?_ (stable_tableDrops hc)
  intro op hop
  obtain ⟨t, ht, hgone, rfl⟩ := hc.mem_tableDrops.mp hop
  refine ⟨t.form, ?_⟩
  rw [hd.tables_tableCreations_other (Or.inl hgone), tables_indexDrops]
  exact get?_tables_database_of_get? ht

theorem executable_columnDrops (hs : current.Sound) (hc : current.Verified) (hd : desired.Verified) :
    Executable (((current.database.run (indexDrops current desired)).run
      (tableCreations current desired)).run (tableDrops current desired))
      (columnDrops current desired) := by
  refine executable_of_stable ?_ (stable_columnDrops hc)
  intro op hop
  obtain ⟨n, t, d, ht, hn, -, c, hremoved, rfl⟩ := mem_columnDrops.mp hop
  obtain ⟨hname, htable⟩ := hs.table n t ht
  obtain ⟨k, hk⟩ := OrderedMap.mem_values_iff.mp (List.mem_filter.mp hremoved).1
  have hheld : t.Holds c := by
    have hck : c.name = k := htable.column k c hk
    rw [Table.Holds, hck]
    exact hk
  refine ⟨t.form, ?_, hheld.contains_form⟩
  rw [hname]
  exact tables_beforeColumnDrops hc hd ht hn

theorem executable_tableRebuilds (hc : current.Verified) (hd : desired.Verified) :
    Executable ((((current.database.run (indexDrops current desired)).run
      (tableCreations current desired)).run (tableDrops current desired)).run
      (columnDrops current desired)) (tableRebuilds suffixes current desired) := by
  refine executable_of_stable ?_ (stable_tableRebuilds hc hd)
  intro op hop
  obtain ⟨n, r, k, hr, rfl⟩ := mem_tableRebuilds hop
  have hrebuilt : (rebuilds current desired).get? n ≠ none := by simp [hr]
  refine ⟨r.current.form, ?_, rfl⟩
  rw [(name_of_rebuild hc hd hr).1, hc.tables_columnDrops_other (Or.inr (Or.inr hrebuilt))]
  exact tables_beforeColumnDrops hc hd (get?_current_of_rebuild hr) (get?_desired_of_rebuild hr)

/-! ## Phases that find what is desired -/

/-- The operations that come before references are attached and indexes created. -/
def tableChanges (suffixes : Nat → String) (current desired : Snapshot) : List Operation :=
  indexDrops current desired ++ referenceDrops current desired ++ tableCreations current desired ++
    tableDrops current desired ++ columnDrops current desired ++
    tableRebuilds suffixes current desired

theorem operations_eq : operations suffixes current desired creationMode =
    tableChanges suffixes current desired ++
      (if creationMode = true then [] else referenceAdditions current desired) ++
      indexCreations current desired := rfl

theorem executable_tableChanges (hs : current.Sound) (hc : current.Verified) (hd : desired.Verified) :
    Executable current.database (tableChanges suffixes current desired) := by
  unfold tableChanges
  simp only [executable_append, Database.run_append, run_referenceDrops]
  exact ⟨⟨⟨⟨⟨executable_indexDrops hs hc, executable_referenceDrops hs⟩,
    executable_tableCreations hd⟩, executable_tableDrops hc hd⟩, executable_columnDrops hs hc hd⟩,
    executable_tableRebuilds hc hd⟩

/-- Once the tables are changed, every desired table is there with the desired columns. -/
theorem columns_tableChanges (hc : current.Verified) (hd : desired.Verified) {n : String} {d : Table}
    (hn : desired.tables.get? n = some d) :
    ∃ f, (current.database.run (tableChanges suffixes current desired)).tables.get? n = some f ∧
      f.SameColumns d.form := by
  have hrun : current.database.run (operations suffixes current desired true) =
      (current.database.run (tableChanges suffixes current desired)).run
        (indexCreations current desired) := by
    rw [operations_eq, Database.run_append, Database.run_append, run_attachments]
  rw [← tables_indexCreations, ← hrun]
  exact columns_plan hc hd hn

theorem hasColumn_tableChanges (hc : current.Verified) (hd : desired.Verified) {n : String} {d : Table}
    (hn : desired.tables.get? n = some d) {x : Column} (hx : d.Holds x) :
    (current.database.run (tableChanges suffixes current desired)).HasColumn n x.name := by
  obtain ⟨f, hf, hsame⟩ := columns_tableChanges hc hd hn
  exact ⟨f, hf, hsame.contains hx.contains_form⟩

theorem executable_referenceAdditions (hs : desired.Sound) (hc : current.Verified)
    (hd : desired.Verified) :
    Executable (current.database.run (tableChanges suffixes current desired))
      (referenceAdditions current desired) := by
  refine executable_of_stable ?_ stable_referenceAdditions
  intro op hop
  obtain ⟨f, hf, c, hsingle, rfl⟩ := mem_referenceAdditions hop
  obtain ⟨t, ht, -, -, hheld⟩ := hs.owner_of_singleColumn hf hsingle
  obtain ⟨d, x, hn, hx, hxheld⟩ := hs.target_of_singleColumn hf hsingle
  exact ⟨hasColumn_tableChanges hc hd ht hheld, x, hx, hasColumn_tableChanges hc hd hn hxheld⟩

end Snapshot

/-! ## Free index names -/

def Operation.MakesNoIndex : Operation → Prop
  | createIndex _ _ _ => False
  | _ => True

theorem Operation.onIndex_eq_none_or (op : Operation) (hop : op.MakesNoIndex) (n : String)
    (x : Option IndexForm) : op.onIndex n x = none ∨ op.onIndex n x = x := by
  have hfilter : ∀ p : IndexForm → Bool, x.filter p = none ∨ x.filter p = x := by
    intro p
    cases x with
    | none => exact Or.inl rfl
    | some i =>
        by_cases hp : p i = true
        · exact Or.inr (if_pos hp)
        · exact Or.inl (if_neg hp)
  cases op with
  | dropIndex table name =>
      by_cases hname : name = n
      · exact Or.inl (if_pos hname)
      · exact Or.inr (if_neg hname)
  | dropTable name => exact hfilter _
  | recreateTable current desired reasons suffix => exact hfilter _
  | createIndex table name columns => exact absurd hop id
  | createTable table references => exact Or.inr rfl
  | addColumn table column => exact Or.inr rfl
  | dropColumn table name => exact Or.inr rfl
  | dropForeignKey table column => exact Or.inr rfl
  | addForeignKey table column f => exact Or.inr rfl

/-- Operations that make no index free a name if one of them removes the index found there. -/
theorem foldl_onIndex_eq_none {ops : List Operation} (hops : ∀ op ∈ ops, op.MakesNoIndex) {n : String}
    {x : Option IndexForm} (h : ∀ i, x = some i → ∃ op ∈ ops, op.onIndex n (some i) = none) :
    ops.foldl (fun x op => op.onIndex n x) x = none := by
  induction ops generalizing x with
  | nil =>
      cases x with
      | none => rfl
      | some i =>
          obtain ⟨op, hop, -⟩ := h i rfl
          cases hop
  | cons op ops ih =>
      rw [List.foldl_cons]
      apply ih fun o ho => hops o (List.mem_cons_of_mem op ho)
      intro i hi
      rcases op.onIndex_eq_none_or (hops op List.mem_cons_self) n x with hnone | hsame
      · rw [hnone] at hi
        cases hi
      · -- The first operation has let the index stand, so it is another one that removes it.
        have hx : x = some i := hsame.symm.trans hi
        obtain ⟨o, ho, hremoves⟩ := h i hx
        rcases List.mem_cons.mp ho with rfl | ho
        · rw [hx, hremoves] at hi
          cases hi
        · exact ⟨o, ho, hremoves⟩

namespace Snapshot

variable {current desired : Snapshot} {suffixes : Nat → String} {creationMode : Bool}

theorem makesNoIndex_tableChanges (hc : current.Verified) (hd : desired.Verified) :
    ∀ op ∈ tableChanges suffixes current desired, op.MakesNoIndex := by
  intro op hop
  simp only [tableChanges, List.mem_append, or_assoc] at hop
  rcases hop with h | h | h | h | h | h
  · obtain ⟨n, i, -, rfl⟩ := mem_indexDrops.mp h
    trivial
  · obtain ⟨f, -, c, -, rfl⟩ := mem_referenceDrops h
    trivial
  · obtain ⟨d, -, -, rfl⟩ := hd.mem_tableCreations.mp h
    trivial
  · obtain ⟨t, -, -, rfl⟩ := hc.mem_tableDrops.mp h
    trivial
  · obtain ⟨n, t, d, -, -, -, c, -, rfl⟩ := mem_columnDrops.mp h
    trivial
  · obtain ⟨n, r, k, -, rfl⟩ := mem_tableRebuilds h
    trivial

/-- An index in the way of one to be added is removed, or stands on a table that goes. -/
theorem removed_of_added (hcs : current.Sound) (hds : desired.Sound) (hc : current.Verified)
    (hd : desired.Verified) {n : String} {c i : Index}
    (hcurrent : current.indexesByName.get? n = some c)
    (hadded : (indexesToAdd current desired).get? n = some i) :
    (indexesToRemove current desired).get? n = some c ∨ desired.tables.get? c.ownerName = none := by
  obtain ⟨hi, hreason⟩ := (get?_indexesToAdd hds hd).mp hadded
  cases howner : desired.tables.get? c.ownerName with
  | none => exact Or.inr rfl
  | some d =>
      refine Or.inl ((get?_indexesToRemove hcs hc).mpr ⟨hcurrent, ?_⟩)
      by_cases hchanged : indexChanged c i = true
      · refine Or.inl ⟨OrderedMap.contains_of_get? howner, ?_⟩
        intro j hj
        rw [hi] at hj
        exact Option.some.inj hj ▸ hchanged
      · -- An unchanged index is added again only with its table, which is the table of both.
        have hrebuilt := hreason.resolve_left fun h => hchanged (h c hcurrent)
        have hsame : c.ownerName = i.ownerName := by
          rw [indexChanged, Bool.or_eq_true, not_or] at hchanged
          simpa using hchanged.1
        exact Or.inr (hsame ▸ hrebuilt)

/-- Once the tables are changed, a name is free if the index found there is removed or stands on a
table that goes. -/
theorem indexes_tableChanges_of_removed (hs : current.Sound) (hc : current.Verified)
    (hd : desired.Verified) {n : String}
    (h : ∀ c, current.indexesByName.get? n = some c →
      (indexesToRemove current desired).get? n = some c ∨ desired.tables.get? c.ownerName = none) :
    (current.database.run (tableChanges suffixes current desired)).indexes.get? n = none := by
  rw [Database.get?_indexes_run]
  apply foldl_onIndex_eq_none (makesNoIndex_tableChanges hc hd)
  intro form hform
  rw [get?_indexes_database] at hform
  obtain ⟨c, hcurrent, rfl⟩ := Option.map_eq_some_iff.mp hform
  -- The index in the way is dropped by itself at the start, or later with its table.
  rcases h c hcurrent with hremoved | hgone
  · have hdrop : .dropIndex c.ownerName c.name ∈ indexDrops current desired :=
      mem_indexDrops.mpr ⟨n, c, hremoved, rfl⟩
    refine ⟨.dropIndex c.ownerName c.name, ?_, if_pos (hc.name_indexesByName hcurrent)⟩
    simp only [tableChanges, List.mem_append, or_assoc]
    exact Or.inl hdrop
  · obtain ⟨t, ht, -⟩ := hs.owner_indexesByName hc hcurrent
    obtain ⟨hname, -⟩ := hs.table _ t ht
    have hdrop : .dropTable c.ownerName ∈ tableDrops current desired := by
      rw [← hname] at ht hgone ⊢
      exact hc.mem_tableDrops.mpr ⟨t, ht, hgone, rfl⟩
    refine ⟨.dropTable c.ownerName, ?_, ?_⟩
    · simp only [tableChanges, List.mem_append, or_assoc]
      exact Or.inr (Or.inr (Or.inr (Or.inl hdrop)))
    · show (some c.form).filter (fun i => i.table != c.ownerName) = none
      simp [Option.filter, Index.form]

/-- Once the tables are changed, the name of every index to be added is free. -/
theorem indexes_tableChanges (hcs : current.Sound) (hds : desired.Sound) (hc : current.Verified)
    (hd : desired.Verified) {n : String} {i : Index}
    (hadded : (indexesToAdd current desired).get? n = some i) :
    (current.database.run (tableChanges suffixes current desired)).indexes.get? n = none :=
  indexes_tableChanges_of_removed hcs hc hd fun _ hcurrent =>
    removed_of_added hcs hds hc hd hcurrent hadded

theorem executable_indexCreations (hcs : current.Sound) (hds : desired.Sound) (hc : current.Verified)
    (hd : desired.Verified) :
    Executable (current.database.run (tableChanges suffixes current desired))
      (indexCreations current desired) := by
  refine executable_of_stable ?_ (stable_indexCreations hds hd)
  intro op hop
  obtain ⟨n, i, hadded, rfl⟩ := mem_indexCreations.mp hop
  obtain ⟨hi, -⟩ := (get?_indexesToAdd hds hd).mp hadded
  obtain ⟨d, hn, hindex⟩ := hds.owner_indexesByName hd hi
  obtain ⟨-, -, hheld⟩ := (hds.table _ d hn).2.index n i hindex
  -- What is needed: the table, its columns and a free name.
  refine ⟨?_, ?_, ?_⟩
  · obtain ⟨f, hf, -⟩ := columns_tableChanges hc hd hn
    exact ⟨f, hf⟩
  · intro name hname
    obtain ⟨x, hx, rfl⟩ := List.mem_map.mp hname
    exact hasColumn_tableChanges hc hd hn (hheld x hx)
  · rw [hd.name_indexesByName hi]
    exact indexes_tableChanges hcs hds hc hd hadded

/-- **Executability**: for reachable snapshots that can be planned for there is a plan, and each of its
operations is ready when it comes to it in the database of `current`. -/
theorem diff_executable (suffixes : Nat → String) {current desired : Snapshot} {creationMode : Bool}
    (hc : current.Reachable) (hd : desired.Reachable)
    (h : current.Plannable desired creationMode) :
    ∃ p, diff suffixes current desired creationMode = .ok p ∧
      Executable current.database p.operations := by
  have hcs := hc.sound h.verifiedCurrent
  have hds := hd.sound h.verifiedDesired
  have hcv := verify_eq_ok_iff.mp h.verifiedCurrent
  have hdv := verify_eq_ok_iff.mp h.verifiedDesired
  refine ⟨_, h.diff_eq suffixes, ?_⟩
  show Executable current.database (operations suffixes current desired creationMode)
  rw [operations_eq, executable_append, executable_append, Database.run_append, run_attachments]
  refine ⟨⟨executable_tableChanges hcs hcv hdv, ?_⟩, executable_indexCreations hcs hds hcv hdv⟩
  -- Only outside creation mode are references attached.
  cases creationMode with
  | false => exact executable_referenceAdditions hds hcv hdv
  | true => trivial

theorem diff_executable_earlier_later :
    Plannable (ofCommands earlier) (ofCommands later) false ∧
      ∃ p, diff Nat.repr (ofCommands earlier) (ofCommands later) false = .ok p ∧
        Executable (ofCommands earlier).database p.operations :=
  ⟨plannable_earlier_later, diff_executable Nat.repr (reachable_ofCommands (by decide) (by decide))
    (reachable_ofCommands (by decide) (by decide)) plannable_earlier_later⟩

end Snapshot
end SchemaSync
