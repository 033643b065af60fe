import SchemaSync.Proofs.Catalog.Listing
import SchemaSync.Proofs.Catalog.Normal

/-!
# Renaming tables and columns

A renaming writes the new name where the part itself keeps it and where its owner holds it, and nowhere
else. Everything that mentions the part does so by identity, so the new name shows in every key,
constraint, index and reference at once, and a part of the same name elsewhere is not touched.

The main statement, `Edit.rename_relabels`, says this of the whole listing of a snapshot; the renaming back
restores the very catalog, and verification comes out as before.
-/

namespace SchemaSync

/-- A change of a part that takes back the change before it restores the store. -/
theorem Store.update_update {kind : Kind} {α : Type} [Inhabited α] {s : Store kind α} {h : Handle kind}
    {f g : α → α} (hback : g (f (s.get h)) = s.get h) : (s.update h f).update h g = s := by
  obtain ⟨cells⟩ := s
  unfold Store.update
  congr 1
  apply Array.ext_getElem?
  intro i
  rw [Array.getElem?_modify, Array.getElem?_modify]
  by_cases hi : h.number = i
  · subst hi
    rw [if_pos rfl, if_pos rfl]
    unfold Store.get at hback
    cases hcell : cells[h.number]? with
    | none => rfl
    | some a =>
        rw [hcell, Option.getD_some] at hback
        rw [Option.map_some, Option.map_some, hback]
  · rw [if_neg hi, if_neg hi]

namespace Catalog

variable {c d : Catalog} {s : SnapshotId} {t : TableId} {id : ColumnId} {name old new : String}
  {ρ : Relabelling}

/-! ## What a renaming does to the names -/

/-- A table that is held under one name is not held under another one. -/
theorem Linked.eq_of_tableName (hl : c.Linked) {u : TableId} (ht : c.findTable? s name = some t)
    (hu : c.HasTable s u) (hname : c.tableName u = name) : u = t := by
  have hheld := hl.hasTable_iff.mp hu
  rw [hname, ht] at hheld
  exact (Option.some.inj hheld).symm

/-- Renaming a column renames what is called so on its table; no other column is. -/
theorem Linked.get_renameColumn (hl : c.Linked) (hold : c.findColumn? t old = some id) {x : ColumnId}
    (hx : c.columns.Issued x) : (c.renameColumn t id old new).columns.get x =
      { c.columns.get x with
        name := if (c.columns.get x).owner = t then OrderedMap.renameKey old new (c.columns.get x).name
          else (c.columns.get x).name } := by
  obtain ⟨hid, howner, hcalled⟩ := hl.column t old id hold
  show (c.columns.update id fun e => { e with name := new }).get x = _
  by_cases hxid : x = id
  · subst hxid
    rw [Store.get_update_self _ hid, if_pos howner, hcalled, OrderedMap.renameKey, if_pos rfl]
  · rw [Store.get_update_of_ne _ hxid]
    split
    · next hxt =>
      -- On the same table the old name leads to the renamed column only.
      have hne : (c.columns.get x).name ≠ old := by
        intro hname
        have hheld := hl.held x hx
        rw [hxt, hname, hold] at hheld
        exact hxid (Option.some.inj hheld).symm
      rw [OrderedMap.renameKey_of_ne new hne]
    · rfl

/-- A column that gets a new name does so under every relabelling that renames it on its own table, if
the snapshot holds it, and leaves all other names alone. -/
theorem Linked.renamed_renameColumn (hl : c.Linked) (hold : c.findColumn? t old = some id)
    (hfree : c.findColumn? t new = none) (htable : ∀ n, ρ.table n = n)
    (hself : c.HasTable s t → ρ.column (c.tableName t) = OrderedMap.renameKey old new)
    (hother : ∀ u, c.HasTable s u → u ≠ t → ∀ x, ρ.column (c.tableName u) x = x) :
    Renamed ρ s c (c.renameColumn t id old new) := by
  have ht := issued_of_findColumn? hold
  have hfield : ∀ {β : Type} (field : TableEntry → β),
      (∀ e, field { e with columns := e.columns.rename old new } = field e) →
        ∀ u, field ((c.renameColumn t id old new).tables.get u) = field (c.tables.get u) :=
    fun field hf u => c.tables.field_update t field hf u
  refine
    { tables := ?_
      tableName := ?_
      columns := ?_
      column := ?_
      slots := hfield TableEntry.slots fun _ => rfl
      uniques := hfield TableEntry.uniques fun _ => rfl
      foreignKeys := hfield TableEntry.foreignKeys fun _ => rfl
      indexes := hfield TableEntry.indexes fun _ => rfl
      uniqueStore := rfl
      foreignKeyStore := rfl
      indexStore := rfl }
  · simp only [htable]
    exact (List.map_id _).symm
  · intro u _
    rw [htable]
    exact hfield TableEntry.name (fun _ => rfl) u
  · intro u hu
    by_cases hut : u = t
    · subst hut
      have hcolumns : ((c.renameColumn u id old new).tables.get u).columns =
          (c.tables.get u).columns.rename old new :=
        congrArg TableEntry.columns (Store.get_update_self _ ht)
      rw [hcolumns, OrderedMap.entries_rename (OrderedMap.get?_eq_none_iff.mp hfree), hself hu]
    · have hsame : (c.renameColumn t id old new).tables.get u = c.tables.get u :=
        Store.get_update_of_ne _ hut
      simp only [hsame, hother u hu hut]
      exact (List.map_id _).symm
  · rintro u hu x hx rfl
    rw [hl.get_renameColumn hold hx]
    by_cases hut : (c.columns.get x).owner = t
    · rw [if_pos hut, hut, hself (hut ▸ hu)]
    · rw [if_neg hut, hother _ hu hut]

/-- A table gets a new name, in its snapshot and for whoever mentions it. -/
theorem Linked.renamed_renameTable (hl : c.Linked) (hold : c.findTable? s old = some t)
    (hfree : c.findTable? s new = none) :
    Renamed (.ofTable old new) s c (c.renameTable s t old new) := by
  obtain ⟨ht, -, hcalled⟩ := hl.table s old t hold
  have hfield : ∀ {β : Type} (field : TableEntry → β), (∀ e, field { e with name := new } = field e) →
      ∀ u, field ((c.renameTable s t old new).tables.get u) = field (c.tables.get u) :=
    fun field hf u => c.tables.field_update t field hf u
  refine
    { tables := ?_
      tableName := ?_
      columns := ?_
      column := fun _ _ _ _ _ => rfl
      slots := hfield TableEntry.slots fun _ => rfl
      uniques := hfield TableEntry.uniques fun _ => rfl
      foreignKeys := hfield TableEntry.foreignKeys fun _ => rfl
      indexes := hfield TableEntry.indexes fun _ => rfl
      uniqueStore := rfl
      foreignKeyStore := rfl
      indexStore := rfl }
  · have htables : ((c.renameTable s t old new).snapshots.get s).tables =
        (c.snapshots.get s).tables.rename old new :=
      congrArg SnapshotEntry.tables (Store.get_update_self _ (issued_of_findTable? hold))
    rw [htables, OrderedMap.entries_rename (OrderedMap.get?_eq_none_iff.mp hfree)]
    rfl
  · intro u hu
    show ((c.tables.update t fun e => { e with name := new }).get u).name =
      OrderedMap.renameKey old new (c.tableName u)
    by_cases hut : u = t
    · rw [hut, Store.get_update_self _ ht, hcalled, OrderedMap.renameKey, if_pos rfl]
    · have hne : c.tableName u ≠ old := fun hname => hut (hl.eq_of_tableName hold hu hname)
      rw [Store.get_update_of_ne _ hut, OrderedMap.renameKey_of_ne new hne, tableName]
  · intro u _
    have hcolumns := hfield TableEntry.columns (fun _ => rfl) u
    rw [hcolumns]
    exact (List.map_id _).symm

/-! ## Renaming back -/

theorem Linked.renameColumn_renameColumn (hl : c.Linked) (hold : c.findColumn? t old = some id)
    (hfree : c.findColumn? t new = none) (hne : new ≠ old) :
    (c.renameColumn t id old new).renameColumn t id new old = c := by
  obtain ⟨-, -, hcalled⟩ := hl.column t old id hold
  have hcolumns : (c.columns.update id fun e => { e with name := new }).update id
      (fun e => { e with name := old }) = c.columns := by
    apply Store.update_update
    rw [← hcalled]
  have htables : (c.tables.update t fun e => { e with columns := e.columns.rename old new }).update t
      (fun e => { e with columns := e.columns.rename new old }) = c.tables := by
    apply Store.update_update
    show { c.tables.get t with
      columns := ((c.tables.get t).columns.rename old new).rename new old } = c.tables.get t
    rw [OrderedMap.rename_rename (OrderedMap.get?_eq_none_iff.mp hfree) hne.symm]
  exact congrArg₂ (fun columns tables => { c with columns, tables }) hcolumns htables

theorem Linked.renameTable_renameTable (hl : c.Linked) (hold : c.findTable? s old = some t)
    (hfree : c.findTable? s new = none) (hne : new ≠ old) :
    (c.renameTable s t old new).renameTable s t new old = c := by
  obtain ⟨-, -, hcalled⟩ := hl.table s old t hold
  have htables : (c.tables.update t fun e => { e with name := new }).update t
      (fun e => { e with name := old }) = c.tables := by
    apply Store.update_update
    rw [← hcalled]
    rfl
  have hsnapshots : (c.snapshots.update s fun e => { e with tables := e.tables.rename old new }).update s
      (fun e => { e with tables := e.tables.rename new old }) = c.snapshots := by
    apply Store.update_update
    show { c.snapshots.get s with
      tables := ((c.snapshots.get s).tables.rename old new).rename new old } = c.snapshots.get s
    rw [OrderedMap.rename_rename (OrderedMap.get?_eq_none_iff.mp hfree) hne.symm]
  exact congrArg₂ (fun tables snapshots => { c with tables, snapshots }) htables hsnapshots

/-! ## Verification -/

theorem Reachable.of_outcome (h : c.Reachable) {k : Edit.Command} (hk : k.Issued c)
    {r : Except EditError Unit} (houtcome : k.outcome c = (r, d)) : d.Reachable := by
  have hafter := h.edit hk
  rwa [houtcome] at hafter

theorem Reachable.owned (h : c.Reachable) : c.Owned := Mutations.owned h.mutations owned_empty

theorem Reachable.indexesApart (h : c.Reachable) : c.IndexesApart := by
  have hrun := h.mutations
  suffices c.Linked ∧ c.IndexesApart from this.2
  clear h
  induction hrun with
  | refl => exact ⟨linked_empty, wellFormed_empty.indexesApart⟩
  | tail _ hstep ih =>
      obtain ⟨hl, ha⟩ := ih
      exact ⟨hstep.linked hl, hstep.indexesApart hl ha⟩

/-- A self-contained snapshot of a reachable catalog verifies if the key of each of its tables has no
gap. -/
theorem Reachable.verify_snapshot_iff (h : c.Reachable) (hs : c.RefersWithin s) :
    (c.snapshot s).verify = .ok () ↔ ∀ t, c.HasTable s t → (c.table t).SlotsFilled := by
  have hintact := h.owned.snapshot_intact h.linked h.indexesApart hs
  rw [hintact.verify_eq_ok_iff]
  constructor
  · rintro hfilled t ⟨name, ht⟩
    exact hfilled name (c.table t) (by rw [get?_tables_snapshot, ht, Option.map_some])
  · intro hfilled name t ht
    rw [get?_tables_snapshot] at ht
    obtain ⟨u, hu, rfl⟩ := Option.map_eq_some_iff.mp ht
    exact hfilled u ⟨name, hu⟩

/-- Verification does not depend on names. -/
theorem Renamed.verify_iff (h : Renamed ρ s c d) (hc : c.Reachable) (hd : d.Reachable)
    (hs : c.RefersWithin s) : (d.snapshot s).verify = .ok () ↔ (c.snapshot s).verify = .ok () := by
  have hslots : ∀ t, (d.table t).SlotsFilled ↔ (c.table t).SlotsFilled := by
    intro t
    have hkeys : ∀ e : Catalog, (e.table t).slots.keys = (e.tables.get t).slots.keys :=
      fun e => OrderedMap.keys_map _ _
    unfold Table.SlotsFilled
    rw [hkeys, hkeys, h.slots]
  rw [hd.verify_snapshot_iff (h.refersWithin_iff.mpr hs), hc.verify_snapshot_iff hs]
  simp only [h.hasTable_iff, hslots]

end Catalog

/-! ## The edits -/

namespace Edit

open Catalog

variable {c d : Catalog} {s : SnapshotId} {t : TableId} {id : ColumnId} {old new : String}

/-- A renaming that succeeds changes nothing under the same name, and is made under a name that is free. -/
theorem newName_eq_ok {κ : Type} {find : Catalog → Option κ} {taken : Catalog → Violation}
    {change : Catalog → Catalog} (h : outcome (do
      if new = old then return ()
      let c ← get
      if (find c).isSome then violate (taken c)
      set (change c)) c = (.ok (), d)) :
    (new = old ∧ d = c) ∨ (new ≠ old ∧ find c = none ∧ d = change c) := by
  by_cases hsame : new = old
  · rw [if_pos hsame] at h
    exact Or.inl ⟨hsame, (Prod.mk.inj h).2.symm⟩
  · rw [if_neg hsame] at h
    obtain ⟨hfree, h⟩ := unless_eq_ok (c := c) h
    exact Or.inr ⟨hsame, by simpa using hfree, (Prod.mk.inj h).2.symm⟩

/-- A column that is there gets any name that is free. -/
theorem outcome_renameColumn (hold : c.findColumn? t old = some id) (hne : new ≠ old)
    (hfree : c.findColumn? t new = none) :
    outcome (Edit.renameColumn t old new) c = (.ok (), c.renameColumn t id old new) := by
  simp [Edit.renameColumn, getColumn, outcome_bind, hold, hne, hfree]
  rfl

theorem outcome_renameColumn_self (hold : c.findColumn? t old = some id) :
    outcome (Edit.renameColumn t old old) c = (.ok (), c) := by
  simp [Edit.renameColumn, getColumn, outcome_bind, hold]

theorem renameColumn_eq_ok (h : outcome (Edit.renameColumn t old new) c = (.ok (), d)) :
    ∃ id, c.findColumn? t old = some id ∧ ((new = old ∧ d = c) ∨
      (new ≠ old ∧ c.findColumn? t new = none ∧ d = c.renameColumn t id old new)) := by
  obtain ⟨id, hold, h⟩ := (reads_getColumn t old).bind_eq_ok h
  exact ⟨id, hold, newName_eq_ok h⟩

/-- A table that is there gets any name that is free. -/
theorem outcome_renameTable (hold : c.findTable? s old = some t) (hne : new ≠ old)
    (hfree : c.findTable? s new = none) :
    outcome (Edit.renameTable s old new) c = (.ok (), c.renameTable s t old new) := by
  simp [Edit.renameTable, getTable, outcome_bind, hold, hne, hfree]
  rfl

theorem outcome_renameTable_self (hold : c.findTable? s old = some t) :
    outcome (Edit.renameTable s old old) c = (.ok (), c) := by
  simp [Edit.renameTable, getTable, outcome_bind, hold]

theorem renameTable_eq_ok (h : outcome (Edit.renameTable s old new) c = (.ok (), d)) :
    ∃ t, c.findTable? s old = some t ∧ ((new = old ∧ d = c) ∨
      (new ≠ old ∧ c.findTable? s new = none ∧ d = c.renameTable s t old new)) := by
  obtain ⟨t, hold, h⟩ := (reads_getTable s old).bind_eq_ok h
  exact ⟨t, hold, newName_eq_ok h⟩

/-- What a successful renaming of a column does to the snapshots of a catalog. -/
theorem renamed_of_renameColumn (hl : c.Linked) (h : outcome (Edit.renameColumn t old new) c = (.ok (), d)) :
    (∀ name, c.findTable? s name = some t → Renamed (.ofColumn name old new) s c d) ∧
      (¬ c.HasTable s t → Renamed .same s c d) := by
  obtain ⟨id, hold, ⟨rfl, rfl⟩ | ⟨hne, hfree, rfl⟩⟩ := renameColumn_eq_ok h
  · exact ⟨fun name _ => Relabelling.ofColumn_self name new ▸ Renamed.refl s d, fun _ => Renamed.refl s d⟩
  · constructor
    · intro name ht
      obtain ⟨-, -, hcalled⟩ := hl.table s name t ht
      refine hl.renamed_renameColumn hold hfree (fun _ => rfl) (fun _ => ?_) fun u hu hut x => ?_
      · funext x
        exact if_pos hcalled
      · exact if_neg fun hname => hut (hl.eq_of_tableName ht hu hname)
    · intro hnot
      exact hl.renamed_renameColumn hold hfree (fun _ => rfl) (fun ht => absurd ht hnot) fun _ _ _ _ => rfl

theorem renamed_of_renameTable (hl : c.Linked) (h : outcome (Edit.renameTable s old new) c = (.ok (), d)) :
    Renamed (.ofTable old new) s c d := by
  obtain ⟨t, hold, ⟨rfl, rfl⟩ | ⟨hne, hfree, rfl⟩⟩ := renameTable_eq_ok h
  · exact Relabelling.ofTable_self new ▸ Renamed.refl s d
  · exact hl.renamed_renameTable hold hfree

/-- A column is renamed back. -/
theorem renameColumn_back (hl : c.Linked) (h : outcome (Edit.renameColumn t old new) c = (.ok (), d)) :
    outcome (Edit.renameColumn t new old) d = (.ok (), c) := by
  obtain ⟨id, hold, ⟨rfl, rfl⟩ | ⟨hne, hfree, rfl⟩⟩ := renameColumn_eq_ok h
  · exact outcome_renameColumn_self hold
  · have hfind := @findColumn?_renameColumn_eq_some_iff c t id old new hold hfree t
    have hnew : (c.renameColumn t id old new).findColumn? t new = some id :=
      hfind.mpr (Or.inl ⟨rfl, rfl, rfl⟩)
    have hnone : (c.renameColumn t id old new).findColumn? t old = none := by
      rw [Option.eq_none_iff_forall_ne_some]
      intro x hx
      rcases hfind.mp hx with ⟨-, hname, -⟩ | ⟨hnot, -⟩
      · exact hne hname.symm
      · exact hnot ⟨rfl, rfl⟩
    rw [outcome_renameColumn hnew hne.symm hnone, hl.renameColumn_renameColumn hold hfree hne]

/-- A table is renamed back. -/
theorem renameTable_back (hl : c.Linked) (h : outcome (Edit.renameTable s old new) c = (.ok (), d)) :
    outcome (Edit.renameTable s new old) d = (.ok (), c) := by
  obtain ⟨t, hold, ⟨rfl, rfl⟩ | ⟨hne, hfree, rfl⟩⟩ := renameTable_eq_ok h
  · exact outcome_renameTable_self hold
  · have hfind := @findTable?_renameTable_eq_some_iff c s t old new hold hfree s
    have hnew : (c.renameTable s t old new).findTable? s new = some t :=
      hfind.mpr (Or.inl ⟨rfl, rfl, rfl⟩)
    have hnone : (c.renameTable s t old new).findTable? s old = none := by
      rw [Option.eq_none_iff_forall_ne_some]
      intro u hu
      rcases hfind.mp hu with ⟨-, hname, -⟩ | ⟨hnot, -⟩
      · exact hne hname.symm
      · exact hnot ⟨rfl, rfl⟩
    rw [outcome_renameTable hnew hne.symm hnone, hl.renameTable_renameTable hold hfree hne]

/-- **Renamings**: in a reachable catalog with a self-contained snapshot, a successful renaming of a column
or a table gives the listing of the snapshot with the new name wherever the old one stood for this part,
and no other change; a column of a table that the snapshot does not hold does not show in it. The renaming
back restores the catalog, and the snapshot verifies after a renaming if and only if it did before. -/
theorem rename_relabels (h : c.Reachable) (hs : (c.snapshot s).SelfContained) :
    (∀ t old new d, outcome (Edit.renameColumn t old new) c = (.ok (), d) →
      (∀ name, c.findTable? s name = some t →
        d.listing s = (Relabelling.ofColumn name old new).onListing (c.listing s)) ∧
      (¬ c.HasTable s t → d.listing s = c.listing s) ∧
      outcome (Edit.renameColumn t new old) d = (.ok (), c) ∧
      ((d.snapshot s).verify = .ok () ↔ (c.snapshot s).verify = .ok ())) ∧
    ∀ old new d, outcome (Edit.renameTable s old new) c = (.ok (), d) →
      d.listing s = (Relabelling.ofTable old new).onListing (c.listing s) ∧
      outcome (Edit.renameTable s new old) d = (.ok (), c) ∧
      ((d.snapshot s).verify = .ok () ↔ (c.snapshot s).verify = .ok ()) := by
  have hwithin := selfContained_iff.mp hs
  constructor
  · intro t old new d hd
    obtain ⟨hheld, helsewhere⟩ := renamed_of_renameColumn (s := s) h.linked hd
    obtain ⟨id, hold, -⟩ := renameColumn_eq_ok hd
    have hreach : d.Reachable := by
      have houtcome : (Command.renameColumn t old new).outcome c = (.ok (), d) := hd
      have hissued : (Command.renameColumn t old new).Issued c := issued_of_findColumn? hold
      exact h.of_outcome hissued houtcome
    refine ⟨?_, ?_, renameColumn_back h.linked hd, ?_⟩
    · intro name ht
      exact (hheld name ht).listing_eq h.linked h.owned hwithin
    · intro hnot
      rw [(helsewhere hnot).listing_eq h.linked h.owned hwithin, Relabelling.onListing_same]
    · by_cases ht : c.HasTable s t
      · obtain ⟨name, ht⟩ := ht
        exact (hheld name ht).verify_iff h hreach hwithin
      · exact (helsewhere ht).verify_iff h hreach hwithin
  · intro old new d hd
    have hrenamed := renamed_of_renameTable h.linked hd
    obtain ⟨t, hold, -⟩ := renameTable_eq_ok hd
    have hreach : d.Reachable := by
      have houtcome : (Command.renameTable s old new).outcome c = (.ok (), d) := hd
      have hissued : (Command.renameTable s old new).Issued c := issued_of_findTable? hold
      exact h.of_outcome hissued houtcome
    exact ⟨hrenamed.listing_eq h.linked h.owned hwithin, renameTable_back h.linked hd,
      hrenamed.verify_iff h hreach hwithin⟩

/-- Two tables with a column of one name each. One table refers to the column of the other. -/
def namesakes : List Command :=
  [.createSnapshot, .createTable ⟨0⟩ "users", .createTable ⟨0⟩ "posts",
    .createColumn ⟨0⟩ ⟨"id", "INTEGER", true, none, false, false⟩,
    .createColumn ⟨1⟩ ⟨"id", "INTEGER", true, none, false, false⟩,
    .createColumn ⟨1⟩ ⟨"user", "INTEGER", false, none, false, true⟩,
    .setPrimaryKey ⟨0⟩ [.named "id"], .setPrimaryKey ⟨1⟩ [.named "id"],
    .createIndex ⟨1⟩ "by_user" [.named "user", .named "id"] false,
    .createForeignKey ⟨1⟩ ⟨.named "users", [.named "user"], [.named "id"], "CASCADE", "NO ACTION"⟩]

theorem rename_relabels_namesakes :
    Command.AllIssued .empty namesakes ∧
      ((Command.run .empty namesakes).snapshot ⟨0⟩).SelfContained ∧
      (∃ d, outcome (Edit.renameColumn ⟨0⟩ "id" "number") (Command.run .empty namesakes) = (.ok (), d) ∧
        d.listing ⟨0⟩ = (Relabelling.ofColumn "users" "id" "number").onListing
          ((Command.run .empty namesakes).listing ⟨0⟩) ∧
        outcome (Edit.renameColumn ⟨0⟩ "number" "id") d = (.ok (), Command.run .empty namesakes) ∧
        ((d.snapshot ⟨0⟩).verify = .ok () ↔ ((Command.run .empty namesakes).snapshot ⟨0⟩).verify = .ok ())) ∧
      ∃ d, outcome (Edit.renameTable ⟨0⟩ "users" "people") (Command.run .empty namesakes) = (.ok (), d) ∧
        d.listing ⟨0⟩ = (Relabelling.ofTable "users" "people").onListing
          ((Command.run .empty namesakes).listing ⟨0⟩) ∧
        outcome (Edit.renameTable ⟨0⟩ "people" "users") d = (.ok (), Command.run .empty namesakes) ∧
        ((d.snapshot ⟨0⟩).verify = .ok () ↔ ((Command.run .empty namesakes).snapshot ⟨0⟩).verify = .ok ()) := by
  have hissued : Command.AllIssued .empty namesakes := by decide
  have hself : ((Command.run .empty namesakes).snapshot ⟨0⟩).SelfContained := by decide
  obtain ⟨hcolumn, htable⟩ := rename_relabels (Reachable.empty.run hissued) hself
  have hdone : ∀ e : Edit Unit, (outcome e (Command.run .empty namesakes)).1 = .ok () →
      outcome e (Command.run .empty namesakes) = (.ok (), (outcome e (Command.run .empty namesakes)).2) :=
    fun e he => Prod.ext he rfl
  have hfind : (Command.run .empty namesakes).findTable? ⟨0⟩ "users" = some ⟨0⟩ := by cbv
  have hcolumnDone := hdone (Edit.renameColumn ⟨0⟩ "id" "number") (by cbv)
  have htableDone := hdone (Edit.renameTable ⟨0⟩ "users" "people") (by cbv)
  obtain ⟨hlisting, -, hrest⟩ := hcolumn _ _ _ _ hcolumnDone
  exact ⟨hissued, hself, ⟨_, hcolumnDone, hlisting "users" hfind, hrest⟩, _, htableDone, htable _ _ _ htableDone⟩

end Edit
end SchemaSync
