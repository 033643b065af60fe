import SchemaSync.Proofs.Catalog.Integrity

/-!
# References to removed tables

A table cannot be removed while another one refers to it. The other direction is not checked: a table
that has been taken out of its snapshot still counts as one of the snapshot's, and a target given by its
handle is not looked up. So a foreign key can be made to a table that the snapshot has let go of.

`Edit.Command.Dangles` says of a command that it does this. No other command leaves a reference behind:
from a catalog without dangling references a command leads to another one exactly if it does not dangle
(`Edit.Command.targetsHeld_outcome_iff`), and the main statement says the same of whole runs.
-/

namespace SchemaSync

open Catalog

variable {c d : Catalog}

/-- The table that a reference stands for on a table: the one under its name in the snapshot of the
table, or the one behind its handle. -/
def TableRef.StandsFor (c : Catalog) (t : TableId) : TableRef → TableId → Prop
  | .named name, u => c.findTable? (c.tables.get t).schema name = some u
  | .handle v, u => v = u

/-- Every foreign key of every table of a snapshot refers to a table of the snapshot. -/
def Snapshot.SelfContained (s : Snapshot) : Prop :=
  ∀ t ∈ s.tables.values, ∀ f ∈ t.foreignKeys, ∃ u ∈ s.tables.values, u.id = f.target

instance (s : Snapshot) : Decidable s.SelfContained :=
  inferInstanceAs (Decidable (∀ t ∈ s.tables.values, ∀ f ∈ t.foreignKeys,
    ∃ u ∈ s.tables.values, u.id = f.target))

namespace Catalog

theorem hasTable_iff_mem_values {s : SnapshotId} {t : TableId} :
    c.HasTable s t ↔ t ∈ (c.snapshots.get s).tables.values := OrderedMap.mem_values_iff.symm

/-- The tables that a snapshot holds, as they are now. -/
theorem mem_tables_snapshot {s : SnapshotId} {t : Table} :
    t ∈ (c.snapshot s).tables.values ↔ ∃ id, c.HasTable s id ∧ c.table id = t := by
  have hvalues : (c.snapshot s).tables.values = (c.snapshots.get s).tables.values.map c.table :=
    OrderedMap.values_map _ _
  rw [hvalues, List.mem_map]
  simp only [hasTable_iff_mem_values]

/-- A snapshot is self-contained exactly if its tables refer only to tables that it holds. -/
theorem selfContained_iff {s : SnapshotId} : (c.snapshot s).SelfContained ↔ c.RefersWithin s := by
  constructor
  · intro h t ht k hk
    have hkey : c.foreignKey k ∈ (c.table t).foreignKeys := List.mem_map_of_mem hk
    obtain ⟨u, hu, hsame⟩ := h _ (mem_tables_snapshot.mpr ⟨t, ht, rfl⟩) _ hkey
    obtain ⟨id, hid, rfl⟩ := mem_tables_snapshot.mp hu
    have htarget : id = (c.foreignKeys.get k).target := hsame
    exact htarget ▸ hid
  · intro h t ht f hf
    obtain ⟨id, hid, rfl⟩ := mem_tables_snapshot.mp ht
    obtain ⟨k, hk, rfl⟩ := List.mem_map.mp hf
    exact ⟨_, mem_tables_snapshot.mpr ⟨_, h id hid k hk, rfl⟩, rfl⟩

/-- No reference dangles in a catalog exactly if every snapshot is self-contained. -/
theorem targetsHeld_iff : c.TargetsHeld ↔ ∀ s, (c.snapshot s).SelfContained :=
  forall_congr' fun _ => selfContained_iff.symm

theorem PlainMutations.targetsHeld (h : PlainMutations c d) (hl : c.Linked) (ho : c.Owned)
    (ht : c.TargetsHeld) : d.TargetsHeld := by
  suffices d.Linked ∧ d.Owned ∧ d.TargetsHeld from this.2.2
  induction h with
  | refl => exact ⟨hl, ho, ht⟩
  | tail _ hstep ih =>
      obtain ⟨hl, ho, ht⟩ := ih
      exact ⟨hstep.1.linked hl, hstep.1.owned ho, hstep.aimed.targetsHeld hl ho ht⟩

/-- A new foreign key leaves no dangling reference exactly if whatever snapshot holds its table holds
its target as well. -/
theorem targetsHeld_addForeignKey_iff (ho : c.Owned) (hheld : c.TargetsHeld) {entry : ForeignKeyEntry}
    (ht : c.tables.Issued entry.owner) :
    (c.addForeignKey entry).TargetsHeld ↔ ∀ s, c.HasTable s entry.owner → c.HasTable s entry.target := by
  have hkeys : ((c.addForeignKey entry).tables.get entry.owner).foreignKeys =
      (c.tables.get entry.owner).foreignKeys ++ [c.foreignKeys.next] :=
    congrArg TableEntry.foreignKeys (Store.get_update_self _ ht)
  constructor
  · intro h s hs
    have hmem : c.foreignKeys.next ∈ ((c.addForeignKey entry).tables.get entry.owner).foreignKeys := by
      rw [hkeys]
      exact List.mem_append_right _ List.mem_cons_self
    have htarget : c.HasTable s ((c.addForeignKey entry).foreignKeys.get c.foreignKeys.next).target :=
      h s entry.owner hs _ hmem
    rwa [get_addForeignKey_next] at htarget
  · intro h s t hs k hk
    replace hs : c.HasTable s t := hs
    show c.HasTable s ((c.addForeignKey entry).foreignKeys.get k).target
    -- A key from before is as it was; the new one is on its own table only.
    have hold : k ∈ (c.tables.get t).foreignKeys →
        c.HasTable s ((c.addForeignKey entry).foreignKeys.get k).target := by
      intro hk
      obtain ⟨hissued, -⟩ := ho.foreignKey t k hk
      have hsame : (c.addForeignKey entry).foreignKeys.get k = c.foreignKeys.get k :=
        (hissued.get_add entry).2
      rw [hsame]
      exact hheld s t hs k hk
    by_cases howner : t = entry.owner
    · subst howner
      rw [hkeys, List.mem_append, List.mem_singleton] at hk
      rcases hk with hk | rfl
      · exact hold hk
      · rw [get_addForeignKey_next]
        exact h s hs
    · have hother : (c.addForeignKey entry).tables.get t = c.tables.get t :=
        Store.get_update_of_ne _ howner
      exact hold (hother ▸ hk)

end Catalog

namespace Edit

variable {α β : Type}

/-! ## What a successful edit has gone through -/

theorem outcome_bind_eq_ok_iff {e : Edit α} {f : α → Edit β} {b : β} :
    outcome (e >>= f) c = (.ok b, d) ↔
      ∃ a c', outcome e c = (.ok a, c') ∧ outcome (f a) c' = (.ok b, d) := outcomeOf_bind_eq_ok_iff

theorem Reads.bind_eq_ok {P : α → Prop} {e : Edit α} {f : α → Edit β} (he : Reads e c P) {b : β}
    (h : outcome (e >>= f) c = (.ok b, d)) : ∃ a, P a ∧ outcome (f a) c = (.ok b, d) := by
  obtain ⟨a, c', ha, hb⟩ := outcome_bind_eq_ok_iff.mp h
  obtain ⟨r, hr, hP⟩ := he
  rw [hr] at ha
  obtain ⟨rfl, rfl⟩ := Prod.mk.inj ha
  exact ⟨a, hP a rfl, hb⟩

/-- A rule checked in front of an edit holds if the edit succeeds. -/
theorem unless_eq_ok {p : Prop} [Decidable p] {v : Violation} {e : Edit α} {a : α}
    (h : outcome (do
      if p then violate v
      e) c = (.ok a, d)) : ¬ p ∧ outcome e c = (.ok a, d) := by
  by_cases hp : p
  · simp only [if_pos hp] at h
    cases h
  · simp only [if_neg hp] at h
    exact ⟨hp, h⟩

theorem reads_resolveTable_standsFor (t : TableId) (r : TableRef) :
    Reads (resolveTable t r) c (r.StandsFor c t) := by
  cases r with
  | named name =>
      apply Reads.get_bind
      exact reads_getTable (c.tables.get t).schema name
  | handle u => exact Reads.pure rfl

/-- A foreign key that is made is put on its table, and leads to what its target stands for. -/
theorem createForeignKey_eq_ok (hl : c.Linked) {t : TableId} {spec : ForeignKeySpec}
    (hlocal : ∀ r ∈ spec.localColumns, r.Issued c) (hforeign : ∀ r ∈ spec.foreignColumns, r.Issued c)
    {k : ForeignKeyId} (h : outcome (createForeignKey t spec) c = (.ok k, d)) :
    ∃ entry, d = c.addForeignKey entry ∧ entry.owner = t ∧ spec.target.StandsFor c t entry.target := by
  obtain ⟨u, hu, h⟩ := (reads_resolveTable_standsFor t spec.target).bind_eq_ok h
  obtain ⟨-, h⟩ := unless_eq_ok (c := c) h
  obtain ⟨localIds, -, h⟩ := (reads_resolveColumns hl t hlocal).bind_eq_ok h
  obtain ⟨foreignIds, -, h⟩ := (reads_resolveColumns hl u hforeign).bind_eq_ok h
  obtain ⟨onUpdate, -, h⟩ := (reads_action spec.onUpdate).bind_eq_ok h
  obtain ⟨onDelete, -, h⟩ := (reads_action spec.onDelete).bind_eq_ok h
  obtain ⟨-, -, h⟩ := reads_check.bind_eq_ok h
  exact ⟨⟨t, u, localIds, foreignIds, onUpdate, onDelete⟩, (Prod.mk.inj h).2.symm, rfl, hu⟩

namespace Command

/-! ## Commands that dangle -/

/-- A command that makes a foreign key from a table that a snapshot holds to a table, given by its
handle, that the snapshot does not hold. -/
def Dangles (c : Catalog) (k : Command) : Prop :=
  ∃ s t u spec, k = createForeignKey t spec ∧ spec.target = .handle u ∧ c.HasTable s t ∧
    ¬ c.HasTable s u ∧ (k.outcome c).1 = .ok ()

/-- From a catalog without dangling references, a command leads to another one exactly if it does not
dangle. -/
theorem targetsHeld_outcome_iff (hl : c.Linked) (ho : c.Owned) (hheld : c.TargetsHeld) {k : Command}
    (hk : k.Issued c) : (k.outcome c).2.TargetsHeld ↔ ¬ k.Dangles c := by
  by_cases hkey : ∃ t spec, k = createForeignKey t spec
  · obtain ⟨t, spec, rfl⟩ := hkey
    obtain ⟨ht, htarget, hlocal, hforeign⟩ := hk
    have hatomic := atomic_createForeignKey hl ht (reads_resolveTable hl t htarget) (fun _ hu => hu)
      hlocal hforeign fun _ _ hmade => hmade
    rcases hatomic with ⟨x, hx⟩ | ⟨k, d, hd, -⟩
    · -- A command that fails has changed nothing.
      have houtcome : (createForeignKey t spec).outcome c = (.error x, c) := congrArg outcome.done hx
      rw [houtcome]
      refine iff_of_true hheld ?_
      rintro ⟨-, -, -, -, -, -, -, -, hok⟩
      rw [houtcome] at hok
      cases hok
    · have houtcome : (createForeignKey t spec).outcome c = (.ok (), d) := congrArg outcome.done hd
      obtain ⟨entry, rfl, rfl, hstands⟩ := createForeignKey_eq_ok hl hlocal hforeign hd
      rw [houtcome, targetsHeld_addForeignKey_iff ho hheld ht]
      constructor
      · intro h
        rintro ⟨s, t, u, other, heq, hhandle, hs, hnot, -⟩
        obtain ⟨rfl, rfl⟩ := Command.createForeignKey.inj heq
        rw [hhandle] at hstands
        have hu : u = entry.target := hstands
        exact hnot (hu ▸ h s hs)
      · intro h s hs
        by_contra hnot
        refine h ⟨s, entry.owner, entry.target, spec, rfl, ?_, hs, hnot, by rw [houtcome]⟩
        cases htarget : spec.target with
        | named name =>
            -- What a name stands for is held by the snapshot in which it was looked up.
            rw [htarget] at hstands
            have hschema := (hl.schema_of_hasTable hs).2
            exact absurd ⟨name, hschema ▸ hstands⟩ hnot
        | handle u =>
            rw [htarget] at hstands
            exact congrArg TableRef.handle hstands
  · have hplain := plainMutations_outcome hl hk fun t spec h => hkey ⟨t, spec, h⟩
    refine iff_of_true (hplain.targetsHeld hl ho hheld) ?_
    rintro ⟨-, t, -, spec, rfl, -⟩
    exact hkey ⟨t, spec, rfl⟩

/-! ## Runs -/

/-- A run from a catalog without dangling references meets none exactly if no command dangles when its
turn comes. -/
theorem targetsHeld_prefix_iff {ks : List Command} (hl : c.Linked) (ho : c.Owned)
    (hheld : c.TargetsHeld) (hks : AllIssued c ks) :
    (∀ before, before <+: ks → (run c before).TargetsHeld) ↔
      ∀ before k, before ++ [k] <+: ks → ¬ k.Dangles (run c before) := by
  induction ks generalizing c with
  | nil =>
      refine iff_of_true ?_ ?_
      · intro before hbefore
        rw [List.prefix_nil.mp hbefore]
        exact hheld
      · intro before k hbefore
        simp at hbefore
  | cons k ks ih =>
      obtain ⟨hk, hks⟩ := hks
      have hmutations := mutations_outcome hl hk
      have hstep := targetsHeld_outcome_iff hl ho hheld hk
      by_cases hdangles : k.Dangles c
      · refine iff_of_false ?_ ?_
        · intro h
          exact hstep.mp (h [k] (by simp)) hdangles
        · intro h
          exact h [] k (by simp) hdangles
      · have hrest := ih (hmutations.linked hl) (hmutations.owned ho) (hstep.mpr hdangles) hks
        constructor
        · intro h before j hbefore
          cases before with
          | nil =>
              obtain ⟨rfl, -⟩ := List.cons_prefix_cons.mp hbefore
              exact hdangles
          | cons i before =>
              obtain ⟨rfl, htail⟩ := List.cons_prefix_cons.mp hbefore
              refine hrest.mp ?_ before j htail
              intro more hmore
              exact h (i :: more) (List.cons_prefix_cons.mpr ⟨rfl, hmore⟩)
        · intro h before hbefore
          cases before with
          | nil => exact hheld
          | cons i before =>
              obtain ⟨rfl, htail⟩ := List.cons_prefix_cons.mp hbefore
              refine hrest.mpr ?_ before htail
              intro more j hmore
              exact h (i :: more) j (List.cons_prefix_cons.mpr ⟨rfl, hmore⟩)

/-- **References of edited snapshots**: along a run of commands every snapshot is self-contained all the
time, exactly if no command of the run makes a foreign key to a table that the snapshot has let go
of. -/
theorem selfContained_along_run_iff {ks : List Command} (hks : AllIssued .empty ks) :
    (∀ before, before <+: ks → ∀ s, ((run .empty before).snapshot s).SelfContained) ↔
      ∀ before k, before ++ [k] <+: ks → ¬ k.Dangles (run .empty before) := by
  rw [← targetsHeld_prefix_iff linked_empty owned_empty wellFormed_empty.targetsHeld hks]
  simp only [targetsHeld_iff]

def keptHandle : List Command :=
  [.createSnapshot, .createTable ⟨0⟩ "customers",
    .createColumn ⟨0⟩ ⟨"id", "INTEGER", false, none, false, false⟩, .createTable ⟨0⟩ "orders",
    .createColumn ⟨1⟩ ⟨"customer", "INTEGER", false, none, false, false⟩,
    .removeTable ⟨0⟩ "customers"]

def staleReference : Command :=
  .createForeignKey ⟨1⟩
    ⟨.handle ⟨0⟩, [.named "customer"], [.named "id"], "NO ACTION", "NO ACTION"⟩

theorem selfContained_along_staleReference :
    AllIssued .empty (keptHandle ++ [staleReference]) ∧
      ((∀ before, before <+: keptHandle ++ [staleReference] →
          ∀ s, ((run .empty before).snapshot s).SelfContained) ↔
        ∀ before k, before ++ [k] <+: keptHandle ++ [staleReference] →
          ¬ k.Dangles (run .empty before)) := by
  have hissued : AllIssued .empty (keptHandle ++ [staleReference]) := by decide
  exact ⟨hissued, selfContained_along_run_iff hissued⟩

/-- The reference is made, and then the snapshot is not self-contained any more: it does not verify. -/
theorem staleReference_made :
    AllIssued .empty (keptHandle ++ [staleReference]) ∧
      (staleReference.outcome (run .empty keptHandle)).1 = .ok () ∧
      ¬ ((run .empty (keptHandle ++ [staleReference])).snapshot ⟨0⟩).SelfContained ∧
      ((run .empty (keptHandle ++ [staleReference])).snapshot ⟨0⟩).verify =
        .error (.targetOutside "orders" "customers") := by
  refine ⟨by decide, by cbv, by decide, by cbv⟩

end Command
end Edit
end SchemaSync
