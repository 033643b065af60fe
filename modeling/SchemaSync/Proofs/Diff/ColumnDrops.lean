import SchemaSync.Proofs.Diff.Cascade
import SchemaSync.Proofs.Diff.Detection
import SchemaSync.Proofs.Diff.FixedPoint

/-!
# Columns that are dropped in place

A column can be dropped in place only if no key and no constraint of its table is over it and no index
covers it any more. Nothing in a plan looks for this. It follows from what the classification compares:
a table whose columns are dropped in place has the same canonical forms on both sides, and a column that
the desired form does not have cannot stand in them. Canonical forms do not tell all constraints apart,
but the words of their names can be read back, and a name that is not empty is a word of its own
(`encode_mem_constraintWords_iff`). The main statement is `Snapshot.diff_drops_free_columns`.
-/

namespace SchemaSync

open Text.Percent (encode encode_injective)

/-! ## Words of names -/

variable {name : String}

theorem encode_ne_empty (h : name ≠ "") : encode name ≠ "" := by
  have hempty : encode "" = "" := by decide
  intro hencode
  exact h (encode_injective (hencode.trans hempty.symm))

/-- A name that is not empty is a word of a set of names exactly if the set holds it. -/
theorem encode_mem_nameWords_iff (h : name ≠ "") {names : Finset String} :
    encode name ∈ nameWords names ↔ name ∈ names := by
  unfold nameWords
  split
  · next hnone =>
    rw [hnone, List.mem_singleton]
    exact iff_of_false (encode_ne_empty h) (Finset.notMem_empty name)
  · rw [Finset.mem_sort, Finset.mem_image]
    constructor
    · intro hmem
      rcases hmem with ⟨other, hother, hsame⟩
      exact encode_injective hsame ▸ hother
    · intro hmem
      exact ⟨name, hmem, rfl⟩

/-- A name that is not empty is a word of some constraints exactly if one of them is over it. -/
theorem encode_mem_constraintWords_iff (h : name ≠ "") {constraints : Finset (Finset String)} :
    encode name ∈ constraintWords constraints ↔ ∃ names ∈ constraints, name ∈ names := by
  unfold constraintWords
  split
  · next hnone =>
    rw [hnone, List.mem_singleton]
    refine iff_of_false (encode_ne_empty h) ?_
    rintro ⟨names, hnames, -⟩
    exact Finset.notMem_empty names hnames
  · rw [List.mem_flatten]
    constructor
    · intro hmem
      rcases hmem with ⟨words, hwords, hmem⟩
      obtain ⟨names, hnames, rfl⟩ := mem_wordGroups.mp hwords
      exact ⟨names, hnames, (encode_mem_nameWords_iff h).mp hmem⟩
    · intro hmem
      rcases hmem with ⟨names, hnames, hmem⟩
      exact ⟨nameWords names, mem_wordGroups.mpr ⟨names, hnames, rfl⟩,
        (encode_mem_nameWords_iff h).mpr hmem⟩

/-! ## Columns that nothing is over -/

namespace Table

/-- No key and no constraint of a table is over a column. -/
structure Frees (t : Table) (name : String) : Prop where
  key : name ∉ columnNames t.primaryKey
  uniques : ∀ u ∈ t.uniques, name ∉ columnNames u.columns
  foreignKeys : ∀ f ∈ t.foreignKeys, name ∉ columnNames f.localColumns

variable {t d : Table}

theorem contains_of_mem_columnNames {xs : List Column} (hheld : ∀ x ∈ xs, t.Holds x)
    (h : name ∈ columnNames xs) : t.columns.contains name = true := by
  obtain ⟨x, hx, rfl⟩ := List.mem_map.mp h
  exact OrderedMap.contains_of_get? (hheld x hx)

/-- The columns of the primary key are columns of the table. -/
theorem Sound.contains_of_mem_keySet (h : t.Sound) (hname : name ∈ t.keySet) :
    t.columns.contains name = true := by
  have hheld : ∀ x ∈ t.primaryKey, t.Holds x := fun x hx =>
    h.keyHeld x (t.perm_primaryKey.mem_iff.mp hx)
  exact contains_of_mem_columnNames hheld (List.mem_toFinset.mp hname)

theorem Sound.contains_of_mem_uniqueSets (h : t.Sound) {names : Finset String}
    (hnames : names ∈ t.uniqueSets) (hname : name ∈ names) : t.columns.contains name = true := by
  obtain ⟨u, hu, rfl⟩ := List.mem_map.mp (List.mem_toFinset.mp hnames)
  exact contains_of_mem_columnNames (h.unique u hu).1 (List.mem_toFinset.mp hname)

theorem Sound.contains_of_mem_outlines (h : t.Sound) (hdistinct : ∀ f ∈ t.foreignKeys, f.Distinct)
    {o : ForeignKey.Outline} (ho : o ∈ t.outlines) (hname : name ∈ o.localNames) :
    t.columns.contains name = true := by
  obtain ⟨f, hf, rfl⟩ := mem_outlines.mp ho
  obtain ⟨-, -, hheld, -⟩ := h.foreignKey f hf
  have hlocal : f.reading.outline.localNames = (columnNames f.localColumns).toFinset :=
    (hdistinct f hf).toFinset_local.symm
  rw [hlocal] at hname
  exact contains_of_mem_columnNames hheld (List.mem_toFinset.mp hname)

/-- Primary keys of one canonical form are over the same names, but for the empty one. -/
theorem mem_keySet_of_canonicalPrimaryKey_eq (ht : t.Sound) (hd : d.Sound)
    (h : t.canonicalPrimaryKey = d.canonicalPrimaryKey) (hne : name ≠ "") (hname : name ∈ t.keySet) :
    name ∈ d.keySet := by
  rw [ht.canonicalPrimaryKey_eq, hd.canonicalPrimaryKey_eq,
    Text.joined_inj (commaFree_nameWords _) (commaFree_nameWords _) (nameWords_ne_nil _)
      (nameWords_ne_nil _)] at h
  rw [← encode_mem_nameWords_iff hne, ← h, encode_mem_nameWords_iff hne]
  exact hname

/-- Unique constraints of one canonical form are over the same names, but for the empty one. -/
theorem exists_mem_uniqueSets_of_canonicalUniques_eq (ht : t.Sound) (hd : d.Sound)
    (h : t.canonicalUniques = d.canonicalUniques) (hne : name ≠ "") {names : Finset String}
    (hnames : names ∈ t.uniqueSets) (hname : name ∈ names) :
    ∃ others ∈ d.uniqueSets, name ∈ others := by
  rw [canonicalUniques_eq_iff ht hd] at h
  rw [← encode_mem_constraintWords_iff hne, ← h, encode_mem_constraintWords_iff hne]
  exact ⟨names, hnames, hname⟩

/-- Nothing is over a column that an agreeing form does not have, if the forms have the same outlines of
foreign keys. -/
theorem Agrees.frees (h : t.Agrees d) (ht : t.Sound) (hd : d.Sound)
    (htf : ∀ f ∈ t.foreignKeys, f.Distinct) (hdf : ∀ f ∈ d.foreignKeys, f.Distinct)
    (houtlines : t.outlines = d.outlines) (hne : name ≠ "")
    (hgone : d.columns.contains name = false) : t.Frees name where
  key := by
    intro hname
    have hkey := mem_keySet_of_canonicalPrimaryKey_eq ht hd h.key hne (List.mem_toFinset.mpr hname)
    rw [hd.contains_of_mem_keySet hkey] at hgone
    cases hgone
  uniques := by
    intro u hu hname
    have hmem : u.columnSet ∈ t.uniqueSets := List.mem_toFinset.mpr (List.mem_map_of_mem hu)
    obtain ⟨others, hothers, hother⟩ := exists_mem_uniqueSets_of_canonicalUniques_eq ht hd h.uniques
      hne hmem (List.mem_toFinset.mpr hname)
    rw [hd.contains_of_mem_uniqueSets hothers hother] at hgone
    cases hgone
  foreignKeys := by
    intro f hf hname
    have hmem : f.reading.outline ∈ d.outlines := houtlines ▸ mem_outlines.mpr ⟨f, hf, rfl⟩
    have hlocal : name ∈ f.reading.outline.localNames := by
      show name ∈ f.reading.pairs.image Prod.fst
      rw [← (htf f hf).toFinset_local]
      exact List.mem_toFinset.mpr hname
    rw [hd.contains_of_mem_outlines hdf hmem hlocal] at hgone
    cases hgone

end Table

/-! ## Columns that a plan drops -/

namespace Snapshot

/-- No table's name holds a bar and no column has the empty name. -/
def PlainNames (s : Snapshot) : Prop :=
  ∀ e ∈ s.tables.entries, '|' ∉ e.1.toList ∧ "" ∉ e.2.columns.keys

instance (s : Snapshot) : Decidable s.PlainNames :=
  inferInstanceAs (Decidable (∀ e ∈ s.tables.entries, '|' ∉ e.1.toList ∧ "" ∉ e.2.columns.keys))

/-- A column of a table that nothing is over, and every index over it is dropped by one of the operations
that come before. -/
def Releases (s : Snapshot) (before : List Operation) (table name : String) : Prop :=
  ∃ t, s.tables.get? table = some t ∧ t.columns.contains name = true ∧ t.Frees name ∧
    ∀ n i, t.indexes.get? n = some i → name ∈ columnNames i.columns → .dropIndex table n ∈ before

variable {current desired : Snapshot} {suffixes : Nat → String} {creationMode : Bool}
  {name : String} {t d : Table}

/-- The targets of the foreign keys of a snapshot with plain names can be read back. -/
theorem PlainNames.plain_target (hp : current.PlainNames) (hs : current.Sound)
    (ht : current.tables.get? name = some t) :
    ∀ r ∈ t.references, ForeignKey.Outline.Plain r.target := by
  intro r hr
  obtain ⟨f, hf, rfl⟩ := List.mem_map.mp (List.mem_toFinset.mp hr)
  obtain ⟨u, hu, -⟩ := hs.target name t ht f hf
  intro hboth
  exact (hp _ (OrderedMap.mem_entries_iff_get?.mpr hu)).1 hboth.2

/-- Agreeing tables of snapshots with plain names have the same outlines of foreign keys. -/
theorem outlines_eq_of_agrees (hcp : current.PlainNames) (hdp : desired.PlainNames)
    (hc : current.Sound) (hd : desired.Sound) (ht : current.tables.get? name = some t)
    (hn : desired.tables.get? name = some d) (h : t.Agrees d) : t.outlines = d.outlines := by
  have htext := h.foreignKeys
  rw [Table.canonicalForeignKeys_eq fun _ => hc.distinct ht,
    Table.canonicalForeignKeys_eq fun _ => hd.distinct hn] at htext
  exact (outlinesText_inj (hc.proper_outlines ht (hcp.plain_target hc ht))
    (hd.proper_outlines hn (hdp.plain_target hd hn))).mp htext

/-- An index over a column that is not desired is to be removed, if its table stays. -/
theorem indexesToRemove_of_gone_column (hcs : current.Sound) (hds : desired.Sound)
    (hc : current.Verified) (hd : desired.Verified) (ht : current.tables.get? name = some t)
    (hn : desired.tables.get? name = some d) {n column : String} {i : Index}
    (hi : t.indexes.get? n = some i) (hcolumn : column ∈ columnNames i.columns)
    (hgone : d.columns.contains column = false) :
    (indexesToRemove current desired).get? n = some i := by
  have howner : i.ownerName = name := by
    obtain ⟨hname, htable⟩ := hcs.table name t ht
    exact (htable.index n i hi).2.1.trans hname
  refine (get?_indexesToRemove hcs hc).mpr ⟨hc.get?_indexesByName.mpr ⟨name, t, ht, hi⟩, Or.inl ⟨?_, ?_⟩⟩
  · rw [howner]
    exact OrderedMap.contains_of_get? hn
  · intro j hj
    -- An unchanged index would be over columns of the desired table, and this column is not one.
    by_contra hsame
    obtain ⟨hsameOwner, -, -, hcolumns⟩ := indexChanged_eq_false_iff.mp (Bool.not_eq_true _ ▸ hsame)
    obtain ⟨u, hu, huj⟩ := hds.owner_indexesByName hd hj
    rw [← hsameOwner, howner, hn] at hu
    cases hu
    obtain ⟨-, -, hheld⟩ := (hds.table name d hn).2.index n j huj
    rw [Table.contains_of_mem_columnNames hheld (hcolumns ▸ hcolumn)] at hgone
    cases hgone

/-- What is done in an earlier phase stands before. -/
theorem mem_before_of_phase_lt {before after : List Operation} {op other : Operation}
    (hsplit : operations suffixes current desired creationMode = before ++ op :: after)
    (hmem : other ∈ operations suffixes current desired creationMode)
    (hphase : other.phase < op.phase) : other ∈ before := by
  have hsorted : (operations suffixes current desired creationMode).Pairwise
      fun a b => a.phase ≤ b.phase := phased_operations.sorted
  rw [hsplit] at hmem hsorted
  rcases List.mem_append.mp hmem with hbefore | hrest
  · exact hbefore
  · exfalso
    rcases List.mem_cons.mp hrest with rfl | hafter
    · exact lt_irrefl _ hphase
    · have hle := (List.pairwise_cons.mp (List.pairwise_append.mp hsorted).2.1).1 other hafter
      exact absurd hphase (not_lt.mpr hle)

/-- **In-place drops are legal**: for reachable snapshots that can be planned for, with plain names, there
is a plan. When it drops a column in place, no key and no constraint of the table is over the column, and
the indexes over it have been dropped. -/
theorem diff_drops_free_columns (suffixes : Nat → String) {current desired : Snapshot}
    {creationMode : Bool} (hc : current.Reachable) (hd : desired.Reachable)
    (h : current.Plannable desired creationMode) (hcp : current.PlainNames)
    (hdp : desired.PlainNames) :
    ∃ p, diff suffixes current desired creationMode = .ok p ∧
      ∀ before after table name, p.operations = before ++ .dropColumn table name :: after →
        current.Releases before table name := by
  have hcs := hc.sound h.verifiedCurrent
  have hds := hd.sound h.verifiedDesired
  have hcv := verify_eq_ok_iff.mp h.verifiedCurrent
  have hdv := verify_eq_ok_iff.mp h.verifiedDesired
  refine ⟨_, h.diff_eq suffixes, ?_⟩
  intro before after table name hsplit
  replace hsplit : operations suffixes current desired creationMode =
    before ++ .dropColumn table name :: after := hsplit
  -- Columns are dropped in place only where the two forms of a table agree.
  have hdrop : Operation.dropColumn table name ∈
      (operations suffixes current desired creationMode).filter fun op => op.phase == 4 :=
    List.mem_filter.mpr ⟨hsplit ▸ by simp, rfl⟩
  rw [filter_phase_operations] at hdrop
  obtain ⟨key, t, d, ht, hn, hnone, c, hremoved, hop⟩ := mem_columnDrops.mp (by simpa using hdrop)
  obtain ⟨htable, hname⟩ := Operation.dropColumn.inj hop
  obtain ⟨hkey, htsound⟩ := hcs.table key t ht
  obtain ⟨-, hdsound⟩ := hds.table key d hn
  obtain rfl : key = table := hkey.symm.trans htable
  have hmem : name ∈ columnNames (removedColumns t d) := by
    rw [← hname]
    exact List.mem_map_of_mem hremoved
  obtain ⟨hcontains, hgone⟩ := (mem_columnNames_removedColumns (hcv.table key t ht).2.2).mp hmem
  have hagrees := (get?_rebuilds_eq_none_iff ht hn).mp hnone
  have hne : name ≠ "" := by
    intro hempty
    rw [hempty] at hcontains
    exact (hcp _ (OrderedMap.mem_entries_iff_get?.mpr ht)).2
      (OrderedMap.contains_iff_mem_keys.mp hcontains)
  refine ⟨t, ht, hcontains, ?_, ?_⟩
  · exact hagrees.frees htsound hdsound (fun _ => hcs.distinct ht) (fun _ => hds.distinct hn)
      (outlines_eq_of_agrees hcp hdp hcs hds ht hn hagrees) hne hgone
  · intro n i hi hcolumn
    have hremove := indexesToRemove_of_gone_column hcs hds hcv hdv ht hn hi hcolumn hgone
    obtain ⟨hiname, hiowner, -⟩ := htsound.index n i hi
    have hdropIndex : Operation.dropIndex key n ∈ indexDrops current desired :=
      mem_indexDrops.mpr ⟨n, i, hremove, by rw [hiowner, hkey, hiname]⟩
    exact mem_before_of_phase_lt hsplit (mem_operations.mpr (Or.inl hdropIndex))
      (by simp only [Operation.phase]; omega)

theorem diff_drops_free_columns_earlier_later :
    Plannable (ofCommands earlier) (ofCommands later) false ∧ (ofCommands earlier).PlainNames ∧
      (ofCommands later).PlainNames ∧
      ∃ p, diff Nat.repr (ofCommands earlier) (ofCommands later) false = .ok p ∧
        ∀ before after table name, p.operations = before ++ .dropColumn table name :: after →
          (ofCommands earlier).Releases before table name :=
  have hearlier : (ofCommands earlier).PlainNames := by decide +kernel
  have hlater : (ofCommands later).PlainNames := by decide +kernel
  ⟨plannable_earlier_later, hearlier, hlater, diff_drops_free_columns Nat.repr
    (reachable_ofCommands (by decide) (by decide)) (reachable_ofCommands (by decide) (by decide))
    plannable_earlier_later hearlier hlater⟩

end Snapshot
end SchemaSync
