import SchemaSync.Proofs.Catalog.Parts
import SchemaSync.Proofs.Schema.References
import SchemaSync.Proofs.Schema.Sound

/-!
# Integrity of edited snapshots

Each edit checks only a part of what verification checks, and nothing is verified between edits. Still
only one rule can be broken at the end of a run: that the primary key of a table fills the slots `1`,
`2`, … without a gap. Every other rule holds in every snapshot of every catalog that edits reach
(`Snapshot.Intact`), as long as no foreign key is made to a table that no snapshot holds any more.

The invariant behind this is `Catalog.WellFormed`. What it says of single parts is `Catalog.Owned`; the
rest is about the tables that a snapshot holds together: no two of them have an index of one name, and
whatever one of them refers to is another one of them. A renaming changes none of this, since parts
refer to each other by their identities, and a table that is referred to cannot be removed.
-/

namespace SchemaSync

/-! ## Snapshots whose keys may have gaps -/

/-- The filled primary key slots are exactly `1`, `2`, … up to some number. -/
def Table.SlotsFilled (t : Table) : Prop :=
  ∃ n : Nat, ∀ k : Int, k ∈ t.slots.keys ↔ 1 ≤ k ∧ k ≤ n

/-- A table whose parts are all its own, each under its own name, and whose primary key repeats no
column. -/
structure Table.Intact (t : Table) : Prop where
  key : ∀ x ∈ t.slots.values, (t.columns.get? x.name).map Column.id = some x.id
  keyNames : (columnNames t.slots.values).Nodup
  column : ∀ name x, t.columns.get? name = some x → x.owner = t.id ∧ x.name = name
  index : ∀ name i, t.indexes.get? name = some i →
    i.owner = t.id ∧ i.name = name ∧ ∀ x ∈ i.columns, x.owner = i.owner
  foreignKey : ∀ f ∈ t.foreignKeys, f.owner = t.id ∧ f.Verified
  unique : ∀ u ∈ t.uniques, u.owner = t.id ∧ u.Verified

/-- A snapshot of its own intact tables, each under its own name, in which no index name occurs on two
tables and every foreign key refers to a table of the snapshot. -/
structure Snapshot.Intact (s : Snapshot) : Prop where
  table : ∀ name t, s.tables.get? name = some t → t.schema = s.id ∧ t.name = name ∧ t.Intact
  indexNames : ∀ a t b u, s.tables.get? a = some t → s.tables.get? b = some u →
    ∀ n ∈ t.indexes.keys, u.indexes.contains n = true → a = b
  target : ∀ name t, s.tables.get? name = some t →
    ∀ f ∈ t.foreignKeys, (s.tables.get? f.targetName).map Table.id = some f.target

theorem Table.mem_slotsUpTo {n : Nat} {k : Int} : k ∈ slotsUpTo n ↔ 1 ≤ k ∧ k ≤ n := by
  rw [slotsUpTo, List.mem_map]
  constructor
  · intro h
    rcases h with ⟨i, hi, rfl⟩
    rw [List.mem_range] at hi
    omega
  · intro h
    exact ⟨(k - 1).toNat, List.mem_range.mpr (by omega), by omega⟩

theorem Table.pairwise_slotsUpTo (n : Nat) : (slotsUpTo n).Pairwise (· < ·) := by
  rw [slotsUpTo, List.pairwise_map]
  refine List.pairwise_lt_range.imp ?_
  intro i j hij
  omega

/-- No slot is left out exactly if the filled ones are the first numbers in some order. -/
theorem Table.slotsFilled_iff {t : Table} :
    t.SlotsFilled ↔ ∃ n, t.slots.keys.Perm (slotsUpTo n) := by
  refine exists_congr fun n => ?_
  have hnodup : (slotsUpTo n).Nodup := (pairwise_slotsUpTo n).imp fun hlt => hlt.ne
  rw [List.perm_ext_iff_of_nodup t.slots.nodup_keys hnodup]
  simp only [mem_slotsUpTo]

/-- The sorted slots are the first numbers exactly if no slot is left out. -/
theorem Table.sortedSlots_eq_iff {t : Table} :
    t.sortedSlots = slotsUpTo t.slots.keys.length ↔ t.SlotsFilled := by
  have hperm : t.sortedSlots.Perm t.slots.keys := List.mergeSort_perm _ _
  rw [slotsFilled_iff]
  constructor
  · intro h
    exact ⟨t.slots.keys.length, h ▸ hperm.symm⟩
  · rintro ⟨n, hsame⟩
    have hlength : t.slots.keys.length = n := by
      rw [hsame.length_eq, slotsUpTo, List.length_map, List.length_range]
    have hsorted : t.sortedSlots.Pairwise (· ≤ ·) := List.pairwise_mergeSort' (· ≤ ·) _
    rw [hlength]
    refine (hperm.trans hsame).eq_of_pairwise' hsorted ?_
    exact (pairwise_slotsUpTo n).imp fun hlt => hlt.le

/-- A table is verified exactly if it is intact and its primary key has no gap. -/
theorem Table.verified_iff {t : Table} : t.Verified ↔ t.Intact ∧ t.SlotsFilled := by
  rw [← sortedSlots_eq_iff]
  constructor
  · intro h
    exact ⟨⟨h.key, h.keyNames, h.column, h.index, h.foreignKey, h.unique⟩, h.slots⟩
  · intro h
    rcases h with ⟨h, hslots⟩
    exact ⟨hslots, h.key, h.keyNames, h.column, h.index, h.foreignKey, h.unique⟩

/-- An intact snapshot verifies exactly if no primary key has a gap. -/
theorem Snapshot.Intact.verify_eq_ok_iff {s : Snapshot} (h : s.Intact) :
    s.verify = .ok () ↔ ∀ name t, s.tables.get? name = some t → t.SlotsFilled := by
  rw [Snapshot.verify_eq_ok_iff]
  constructor
  · intro hv name t ht
    obtain ⟨-, -, htable⟩ := hv.table name t ht
    exact (Table.verified_iff.mp htable).2
  · intro hslots
    refine ⟨?_, h.indexNames, h.target⟩
    intro name t ht
    obtain ⟨hschema, hname, htable⟩ := h.table name t ht
    exact ⟨hschema, hname, Table.verified_iff.mpr ⟨htable, hslots name t ht⟩⟩

/-! ## Tables that a snapshot holds -/

namespace Catalog

variable {c d : Catalog} {s : SnapshotId} {t u : TableId}

def HasTable (c : Catalog) (s : SnapshotId) (t : TableId) : Prop :=
  ∃ name, c.findTable? s name = some t

theorem Linked.hasTable_iff (hl : c.Linked) :
    c.HasTable s t ↔ c.findTable? s (c.tableName t) = some t := by
  constructor
  · intro h
    rcases h with ⟨name, hname⟩
    rw [(hl.table s name t hname).2.2]
    exact hname
  · intro h
    exact ⟨_, h⟩

theorem Linked.schema_of_hasTable (hl : c.Linked) (h : c.HasTable s t) :
    c.tables.Issued t ∧ (c.tables.get t).schema = s := by
  obtain ⟨name, hname⟩ := h
  obtain ⟨hissued, hschema, -⟩ := hl.table s name t hname
  exact ⟨hissued, hschema⟩

/-- A table that a snapshot holds after a mutation was held before, or is new. -/
theorem Mutation.hasTable (h : Mutation c d) (ht : d.HasTable s t) :
    c.HasTable s t ∨ ¬ c.tables.Issued t := by
  obtain ⟨name, hname⟩ := ht
  cases h with
  | snapshot =>
      rw [findTable?_addSnapshot] at hname
      exact Or.inl ⟨name, hname⟩
  | table hs hfree =>
      rcases (findTable?_addTable_eq_some_iff hs).mp hname with ⟨-, -, rfl⟩ | ⟨-, hold⟩
      · exact Or.inr fun hissued => hissued.ne_next rfl
      · exact Or.inl ⟨name, hold⟩
  | tableName hold hfree =>
      rcases (findTable?_renameTable_eq_some_iff hold hfree).mp hname with
        ⟨rfl, -, rfl⟩ | ⟨-, hkept⟩
      · exact Or.inl ⟨_, hold⟩
      · exact Or.inl ⟨name, hkept⟩
  | noTable =>
      rw [findTable?_eraseTable] at hname
      split at hname
      · cases hname
      · exact Or.inl ⟨name, hname⟩
  | column | columnName | slot | index | unique | foreignKey => exact Or.inl ⟨name, hname⟩

/-- A snapshot goes on holding a table, unless the mutation takes it out; then no table that the snapshot
holds has a foreign key to it. -/
theorem Mutation.hasTable_or_unused (h : Mutation c d) (hl : c.Linked) (ht : c.HasTable s t) :
    d.HasTable s t ∨ ∀ u, c.HasTable s u →
      ∀ k ∈ (c.tables.get u).foreignKeys, (c.foreignKeys.get k).target ≠ t := by
  have hname := hl.hasTable_iff.mp ht
  cases h with
  | snapshot => exact Or.inl ⟨_, (findTable?_addSnapshot _ _).trans hname⟩
  | table hs hfree =>
      refine Or.inl ⟨c.tableName t, (findTable?_addTable_eq_some_iff hs).mpr (Or.inr ⟨?_, hname⟩)⟩
      intro hsame
      rw [hsame.1, hsame.2, hfree] at hname
      cases hname
  | @tableName r v old new hold hfree =>
      by_cases hsame : s = r ∧ c.tableName t = old
      · -- It is the renamed table, held under its new name from now on.
        obtain ⟨rfl, rfl⟩ := hsame
        rw [hname] at hold
        cases hold
        exact Or.inl ⟨new, (findTable?_renameTable_eq_some_iff hname hfree).mpr
          (Or.inl ⟨rfl, rfl, rfl⟩)⟩
      · exact Or.inl ⟨c.tableName t, (findTable?_renameTable_eq_some_iff hold hfree).mpr
          (Or.inr ⟨hsame, hname⟩)⟩
  | @noTable r v old hold hunused =>
      obtain ⟨-, -, hcalled⟩ := hl.table r old v hold
      by_cases hsame : s = r ∧ c.tableName t = c.tableName v
      · -- It is the table that goes, and a foreign key to it would be listed under its name.
        obtain ⟨rfl, heq⟩ := hsame
        right
        intro u hu k hk htarget
        have hvalue : c.table u ∈ (c.snapshot s).tables.values := by
          refine OrderedMap.mem_values_of_get? (k := c.tableName u) ?_
          rw [get?_tables_snapshot, hl.hasTable_iff.mp hu, Option.map_some]
        have hkey : c.foreignKey k ∈ (c.table u).foreignKeys := List.mem_map_of_mem hk
        apply Snapshot.referencingTables_eq_nil_iff.mp hunused _ hvalue _ hkey
        show c.tableName (c.foreignKeys.get k).target = old
        rw [htarget, heq, hcalled]
      · left
        refine ⟨c.tableName t, ?_⟩
        rw [findTable?_eraseTable, if_neg hsame, hname]
  | column | columnName | slot | index | unique | foreignKey => exact Or.inl ⟨_, hname⟩

/-! ## Index names -/

def IndexedOn (c : Catalog) (s : SnapshotId) (n : String) (t : TableId) : Prop :=
  c.HasTable s t ∧ (c.tables.get t).indexes.contains n = true

/-- No two tables that a snapshot holds have an index of one name. -/
def IndexesApart (c : Catalog) : Prop :=
  ∀ s n t u, c.IndexedOn s n t → c.IndexedOn s n u → t = u

/-- Behind a handle that has not been given out there is no index. -/
theorem issued_of_contains_index {n : String} (h : (c.tables.get t).indexes.contains n = true) :
    c.tables.Issued t := by
  by_contra ht
  rw [Store.get_of_not_issued ht] at h
  cases h

/-- An index that is there after a mutation was there before, or is the only one of its name. -/
theorem Mutation.indexedOn (h : Mutation c d) (hl : c.Linked) {n : String} (ht : d.IndexedOn s n t) :
    c.IndexedOn s n t ∨ ∀ u, d.IndexedOn s n u → u = t := by
  obtain ⟨hheld, hindex⟩ := ht
  -- Where the indexes are as before, the table is not a new one, since it has an index.
  have hold : ∀ {u}, d.HasTable s u → (c.tables.get u).indexes.contains n = true →
      c.IndexedOn s n u := fun hu hindex =>
    ⟨(h.hasTable hu).resolve_right fun hnot => hnot (issued_of_contains_index hindex), hindex⟩
  rcases h.indexes t with heq | ⟨entry, hd, rfl, heq, -, hfree, -⟩
  · rw [heq] at hindex
    exact Or.inl (hold hheld hindex)
  · by_cases hn : entry.name = n
    · right
      rintro u ⟨hu, huindex⟩
      by_contra hne
      -- Any other table has its indexes from before, and there the name was free.
      have hsame : (d.tables.get u).indexes = (c.tables.get u).indexes := by
        rw [hd]
        exact congrArg TableEntry.indexes (Store.get_update_of_ne _ hne)
      rw [hsame] at huindex
      obtain ⟨⟨key, hkey⟩, -⟩ := hold hu huindex
      have howner : (c.tables.get entry.owner).schema = s := by
        rw [hd] at hheld
        exact (hl.schema_of_hasTable hheld).2
      rw [howner, findIndex?, List.findSome?_eq_none_iff] at hfree
      have hnone := hfree u (OrderedMap.mem_values_of_get? hkey)
      rw [hn, ← OrderedMap.contains_eq_false_iff, huindex] at hnone
      cases hnone
    · have hcontains : (c.tables.get entry.owner).indexes.contains n = true := by
        rw [heq, OrderedMap.contains, OrderedMap.get?_insert, if_neg hn] at hindex
        exact hindex
      exact Or.inl (hold hheld hcontains)

theorem Mutation.indexesApart (h : Mutation c d) (hl : c.Linked) (ha : c.IndexesApart) :
    d.IndexesApart := by
  intro s n t u ht hu
  rcases h.indexedOn hl ht with hold | honly
  · rcases h.indexedOn hl hu with hold' | honly
    · exact ha s n t u hold hold'
    · exact honly t ht
  · exact (honly u hu).symm

/-! ## Targets of foreign keys -/

/-- The tables that one snapshot holds refer only to tables that it holds as well. -/
def RefersWithin (c : Catalog) (s : SnapshotId) : Prop :=
  ∀ t, c.HasTable s t → ∀ k ∈ (c.tables.get t).foreignKeys, c.HasTable s (c.foreignKeys.get k).target

/-- Every table that a snapshot holds refers to tables that the snapshot holds. -/
def TargetsHeld (c : Catalog) : Prop :=
  ∀ s t, c.HasTable s t → ∀ k ∈ (c.tables.get t).foreignKeys,
    c.HasTable s (c.foreignKeys.get k).target

/-- A mutation by which a foreign key is made to a table that a snapshot holds, if one is made. -/
def AimedMutation (c d : Catalog) : Prop :=
  Mutation c d ∧ ∀ entry, d = c.addForeignKey entry → ∃ s, c.HasTable s entry.target

theorem PlainMutation.aimed (h : PlainMutation c d) : AimedMutation c d := by
  refine ⟨h.1, ?_⟩
  rintro entry rfl
  have hsize : (c.addForeignKey entry).foreignKeys.size = c.foreignKeys.size :=
    congrArg Store.size h.2
  have hadded : (c.addForeignKey entry).foreignKeys.size = c.foreignKeys.size + 1 :=
    Store.size_add _ _
  omega

theorem AimedMutation.targetsHeld (h : AimedMutation c d) (hl : c.Linked) (ho : c.Owned)
    (ht : c.TargetsHeld) : d.TargetsHeld := by
  obtain ⟨hstep, haimed⟩ := h
  intro s t hheld k hk
  -- A key from before leads to a table that was held, and cannot have been taken out.
  have hold : k ∈ (c.tables.get t).foreignKeys → d.HasTable s (d.foreignKeys.get k).target := by
    intro hk
    obtain ⟨hissued, -⟩ := ho.foreignKey t k hk
    have hbefore : c.HasTable s t := by
      refine (hstep.hasTable hheld).resolve_right fun hnot => ?_
      rw [Store.get_of_not_issued hnot] at hk
      cases hk
    rw [(hstep.get_foreignKey hissued).2]
    rcases hstep.hasTable_or_unused hl (ht s t hbefore k hk) with hafter | hunused
    · exact hafter
    · exact absurd rfl (hunused t hbefore k hk)
  rcases hstep.foreignKeys t with heq | ⟨entry, rfl, rfl, heq, hschema, -⟩
  · exact hold (heq ▸ hk)
  · rw [heq, List.mem_append, List.mem_singleton] at hk
    rcases hk with hk | rfl
    · exact hold hk
    · -- The new key: its target is held, and by the snapshot of its table.
      obtain ⟨r, hr⟩ := haimed entry rfl
      have hs : (c.tables.get entry.owner).schema = s := (hl.schema_of_hasTable hheld).2
      have hrs : r = s := by rw [← (hl.schema_of_hasTable hr).2, hschema, hs]
      rw [get_addForeignKey_next, ← hrs]
      exact hr

/-! ## Well-formed catalogs -/

/-- A catalog in which only primary keys may break a rule. -/
structure WellFormed (c : Catalog) : Prop where
  linked : c.Linked
  owned : c.Owned
  indexesApart : c.IndexesApart
  targetsHeld : c.TargetsHeld

theorem wellFormed_empty : empty.WellFormed where
  linked := linked_empty
  owned := owned_empty
  indexesApart := by rintro s n t u ⟨⟨name, ⟨⟩⟩, -⟩
  targetsHeld := by rintro s t ⟨name, ⟨⟩⟩

theorem AimedMutation.wellFormed (h : AimedMutation c d) (hc : c.WellFormed) : d.WellFormed where
  linked := h.1.linked hc.linked
  owned := h.1.owned hc.owned
  indexesApart := h.1.indexesApart hc.linked hc.indexesApart
  targetsHeld := h.targetsHeld hc.linked hc.owned hc.targetsHeld

theorem WellFormed.of_aimedMutations (hc : c.WellFormed)
    (h : Relation.ReflTransGen AimedMutation c d) : d.WellFormed := by
  induction h with
  | refl => exact hc
  | tail _ hstep ih => exact hstep.wellFormed ih

/-- Every table with parts of its own is intact, also one that no snapshot holds any more. -/
theorem Owned.table_intact (ho : c.Owned) (hl : c.Linked) (t : TableId) : (c.table t).Intact where
  key := by
    intro x hx
    rw [values_slots_table, List.mem_map] at hx
    obtain ⟨id, hid, rfl⟩ := hx
    obtain ⟨hissued, howner⟩ := (ho.slots t).1 id hid
    have hheld : (c.table t).columns.get? (c.column id).name = some (c.column id) :=
      hl.holds hissued howner
    rw [hheld, Option.map_some]
  keyNames := by
    obtain ⟨howns, hnodup⟩ := ho.slots t
    rw [values_slots_table]
    refine Table.nodup_columnNames (t := c.table t) ?_ ?_
    · rw [map_id_resolved]
      exact hnodup
    · intro x hx
      obtain ⟨id, hid, rfl⟩ := List.mem_map.mp hx
      obtain ⟨hissued, howner⟩ := howns id hid
      exact hl.holds hissued howner
  column := by
    intro name x hx
    rw [get?_columns_table] at hx
    obtain ⟨id, hid, rfl⟩ := Option.map_eq_some_iff.mp hx
    exact (hl.column t name id hid).2
  index := by
    intro name i hi
    rw [get?_indexes_table] at hi
    obtain ⟨j, hj, rfl⟩ := Option.map_eq_some_iff.mp hi
    obtain ⟨-, howned⟩ := ho.index t name j hj
    refine ⟨howned.owner, howned.name, ?_⟩
    intro x hx
    obtain ⟨id, hid, rfl⟩ := List.mem_map.mp hx
    exact (howned.columns id hid).2.trans howned.owner.symm
  foreignKey := by
    intro f hf
    obtain ⟨k, hk, rfl⟩ := List.mem_map.mp hf
    obtain ⟨-, howned⟩ := ho.foreignKey t k hk
    exact ⟨howned.owner, howned.verified⟩
  unique := by
    intro u hu
    obtain ⟨k, hk, rfl⟩ := List.mem_map.mp hu
    obtain ⟨-, howned⟩ := ho.unique t k hk
    exact ⟨howned.owner, howned.verified⟩

/-- A snapshot is intact if its tables refer only to each other and have no index name in common. -/
theorem Owned.snapshot_intact (ho : c.Owned) (hl : c.Linked) (hapart : c.IndexesApart)
    (hs : c.RefersWithin s) : (c.snapshot s).Intact where
  table := by
    intro name t ht
    rw [get?_tables_snapshot] at ht
    obtain ⟨u, hu, rfl⟩ := Option.map_eq_some_iff.mp ht
    obtain ⟨-, hschema, hname⟩ := hl.table s name u hu
    exact ⟨hschema, hname, ho.table_intact hl u⟩
  indexNames := by
    intro a t b u ha hb n hn hn'
    rw [get?_tables_snapshot] at ha hb
    obtain ⟨t, ht, rfl⟩ := Option.map_eq_some_iff.mp ha
    obtain ⟨u, hu, rfl⟩ := Option.map_eq_some_iff.mp hb
    have hcontains : ∀ v : TableId, (c.table v).indexes.contains n =
        (c.tables.get v).indexes.contains n := by
      intro v
      rw [Bool.eq_iff_iff, OrderedMap.contains_iff_mem_keys, OrderedMap.contains_iff_mem_keys]
      show n ∈ ((c.tables.get v).indexes.map c.index).keys ↔ _
      rw [OrderedMap.keys_map]
    rw [← OrderedMap.contains_iff_mem_keys, hcontains] at hn
    rw [hcontains] at hn'
    have hsame := hapart s n t u ⟨⟨a, ht⟩, hn⟩ ⟨⟨b, hu⟩, hn'⟩
    subst hsame
    exact (hl.table s a t ht).2.2.symm.trans (hl.table s b t hu).2.2
  target := by
    intro name t ht f hf
    rw [get?_tables_snapshot] at ht
    obtain ⟨u, hu, rfl⟩ := Option.map_eq_some_iff.mp ht
    obtain ⟨k, hk, rfl⟩ := List.mem_map.mp hf
    have htarget := hl.hasTable_iff.mp (hs u ⟨name, hu⟩ k hk)
    show ((c.snapshot s).tables.get? (c.tableName (c.foreignKeys.get k).target)).map Table.id = _
    rw [get?_tables_snapshot, htarget]
    rfl

/-- Every snapshot of a well-formed catalog is intact. -/
theorem WellFormed.snapshot_intact (hc : c.WellFormed) (s : SnapshotId) : (c.snapshot s).Intact :=
  hc.owned.snapshot_intact hc.linked hc.indexesApart (hc.targetsHeld s)

end Catalog

/-! ## Runs of commands -/

variable {c : Catalog}

def Catalog.HeldSomewhere (c : Catalog) (t : TableId) : Prop := ∃ s, c.HasTable s t

theorem Catalog.heldSomewhere_iff {t : TableId} : c.HeldSomewhere t ↔
    ∃ i : Fin c.snapshots.size, t ∈ (c.snapshots.get ⟨i⟩).tables.values := by
  constructor
  · intro h
    rcases h with ⟨s, name, hname⟩
    exact ⟨⟨s.number, issued_of_findTable? hname⟩, OrderedMap.mem_values_of_get? hname⟩
  · intro h
    rcases h with ⟨i, hi⟩
    exact ⟨⟨i⟩, OrderedMap.mem_values_iff.mp hi⟩

instance (c : Catalog) (t : TableId) : Decidable (c.HeldSomewhere t) :=
  decidable_of_iff' _ Catalog.heldSomewhere_iff

/-- A table given by a name, or by the handle of a table that some snapshot holds. -/
def TableRef.Held (c : Catalog) : TableRef → Prop
  | .named _ => True
  | .handle t => c.HeldSomewhere t

instance (c : Catalog) : (r : TableRef) → Decidable (r.Held c)
  | .named _ => inferInstanceAs (Decidable True)
  | .handle t => inferInstanceAs (Decidable (c.HeldSomewhere t))

namespace Edit

open Catalog

theorem reads_resolveTable_held (hl : c.Linked) (t : TableId) {r : TableRef} (hr : r.Issued c)
    (hheld : r.Held c) :
    Reads (resolveTable t r) c fun u => c.tables.Issued u ∧ c.HeldSomewhere u := by
  cases r with
  | named name =>
      apply Reads.get_bind
      obtain ⟨r, houtcome, hfind⟩ := reads_getTable (c.tables.get t).schema name
      refine ⟨r, houtcome, fun u hu => ?_⟩
      exact ⟨(hl.table _ name u (hfind u hu)).1, _, name, hfind u hu⟩
  | handle u => exact Reads.pure ⟨hr, hheld⟩

namespace Command

def target? : Command → Option TableRef
  | createForeignKey _ spec => some spec.target
  | _ => none

/-- A command that mentions only parts that have been made, and asks for no foreign key to a table that
no snapshot holds any more. -/
def Admitted (c : Catalog) (k : Command) : Prop := k.Issued c ∧ ∀ r ∈ k.target?, r.Held c

instance (c : Catalog) (k : Command) : Decidable (k.Admitted c) :=
  inferInstanceAs (Decidable (k.Issued c ∧ ∀ r ∈ k.target?, r.Held c))

/-- Every command of a list is admitted when its turn comes. -/
def AllAdmitted (c : Catalog) : List Command → Prop
  | [] => True
  | k :: ks => k.Admitted c ∧ AllAdmitted (k.outcome c).2 ks

instance decidableAllAdmitted (c : Catalog) : (ks : List Command) → Decidable (AllAdmitted c ks)
  | [] => inferInstanceAs (Decidable True)
  | k :: ks =>
    have : Decidable (AllAdmitted (k.outcome c).2 ks) := decidableAllAdmitted (k.outcome c).2 ks
    inferInstanceAs (Decidable (k.Admitted c ∧ AllAdmitted (k.outcome c).2 ks))

/-- Catalogs to which different foreign keys have been added are different. -/
theorem addForeignKey_inj {e f : ForeignKeyEntry} (h : c.addForeignKey e = c.addForeignKey f) :
    e = f := by
  rw [← c.get_addForeignKey_next e, h, get_addForeignKey_next]

/-- An admitted command makes foreign keys only to tables that a snapshot holds, whether it fails or
not. -/
theorem aimedMutations_outcome (hl : c.Linked) {k : Command} (hk : k.Admitted c) :
    Relation.ReflTransGen AimedMutation c (k.outcome c).2 := by
  obtain ⟨hissued, hheld⟩ := hk
  by_cases hkey : ∃ t spec, k = createForeignKey t spec
  · obtain ⟨t, spec, rfl⟩ := hkey
    obtain ⟨ht, htarget, hlocal, hforeign⟩ := hissued
    have hread := reads_resolveTable_held hl t htarget (hheld spec.target rfl)
    refine (atomic_createForeignKey hl ht hread
      (fun u hu => hu.1) hlocal hforeign ?_).steps
    rintro entry ⟨-, hsome⟩ hmade
    refine ⟨hmade, ?_⟩
    intro other heq
    rw [← addForeignKey_inj heq]
    exact hsome
  · have hplain := plainMutations_outcome hl hissued fun t spec h => hkey ⟨t, spec, h⟩
    exact Relation.ReflTransGen.mono (fun _ _ (hstep : PlainMutation _ _) => hstep.aimed) _ _ hplain

theorem wellFormed_run {ks : List Command} (hc : c.WellFormed) (hks : AllAdmitted c ks) :
    (run c ks).WellFormed := by
  induction ks generalizing c with
  | nil => exact hc
  | cons k ks ih =>
      have hsteps := aimedMutations_outcome hc.linked hks.1
      exact ih (hc.of_aimedMutations hsteps) hks.2

/-- **Integrity of edited snapshots**: after any run of admitted commands, failing ones included, every
snapshot is intact, and so verifies exactly if no primary key has a gap. -/
theorem verify_after_run {ks : List Command} (hks : AllAdmitted .empty ks) (s : SnapshotId) :
    ((run .empty ks).snapshot s).Intact ∧
      (((run .empty ks).snapshot s).verify = .ok () ↔
        ∀ name t, ((run .empty ks).snapshot s).tables.get? name = some t → t.SlotsFilled) := by
  have hintact := (wellFormed_run wellFormed_empty hks).snapshot_intact s
  exact ⟨hintact, hintact.verify_eq_ok_iff⟩

/-- Two snapshots, of which one has a key with a gap. Some commands fail: a key column of the other
snapshot, the removal of a table that is referred to, an index name that is taken. A table is still
edited when its snapshot has let go of it. -/
def roughEdits : List Command :=
  [.createSnapshot, .createSnapshot, .createTable ⟨0⟩ "users", .createTable ⟨0⟩ "posts",
    .createTable ⟨0⟩ "drafts", .createTable ⟨1⟩ "users",
    .createColumn ⟨0⟩ ⟨"id", "INTEGER", true, none, false, false⟩,
    .createColumn ⟨1⟩ ⟨"user", "INTEGER", false, none, false, false⟩,
    .createColumn ⟨2⟩ ⟨"body", "TEXT", false, none, false, true⟩,
    .createColumn ⟨3⟩ ⟨"id", "INTEGER", true, none, false, false⟩,
    .setPrimaryKeyColumn ⟨0⟩ (.named "id") 2, .setPrimaryKeyColumn ⟨0⟩ (.handle ⟨3⟩) 1,
    .createIndex ⟨1⟩ "by_user" [.handle ⟨1⟩] false, .createIndex ⟨2⟩ "by_user" [.named "body"] false,
    .createForeignKey ⟨1⟩ ⟨.handle ⟨0⟩, [.named "user"], [.named "id"], "CASCADE", "NO ACTION"⟩,
    .removeTable ⟨0⟩ "users", .renameTable ⟨0⟩ "users" "people", .rename ⟨0⟩ "number",
    .removeTable ⟨0⟩ "drafts", .renameColumn ⟨2⟩ "body" "text",
    .createForeignKey ⟨2⟩ ⟨.named "people", [.named "text"], [.named "number"], "CASCADE", "CASCADE"⟩]

theorem verify_after_roughEdits :
    AllAdmitted .empty roughEdits ∧ ((run .empty roughEdits).snapshot ⟨0⟩).Intact ∧
      (((run .empty roughEdits).snapshot ⟨0⟩).verify = .ok () ↔
        ∀ name t, ((run .empty roughEdits).snapshot ⟨0⟩).tables.get? name = some t →
          t.SlotsFilled) := by
  have hadmitted : AllAdmitted .empty roughEdits := by decide
  exact ⟨hadmitted, verify_after_run hadmitted ⟨0⟩⟩

end Command
end Edit
end SchemaSync
