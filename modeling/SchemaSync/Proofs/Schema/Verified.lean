import SchemaSync.Proofs.OrderedMap
import SchemaSync.Schema.Verify

/-!
# What verification establishes

Verification reports the first of a list of violations. `Snapshot.Verified` says the same without
lists and without an order of checks, and `Snapshot.verify_eq_ok_iff` shows the two to agree: a
snapshot verifies exactly when it is verified. Proofs about verified snapshots use the fields of
`Snapshot.Verified` and never look at a list of violations again.
-/

namespace SchemaSync

/-! ## Lists of violations -/

theorem repeatedColumns_eq_nil_iff {cs : List Column} (seen : List ColumnId) :
    repeatedColumns seen cs = [] ↔ (cs.map Column.id).Nodup ∧ ∀ x ∈ cs, x.id ∉ seen := by
  induction cs generalizing seen with
  | nil => simp [repeatedColumns]
  | cons c cs ih =>
      rw [repeatedColumns]
      by_cases hc : c.id ∈ seen
      · simp [hc]
      · rw [if_neg (by simpa using hc), ih, List.map_cons, List.nodup_cons, List.mem_map]
        simp only [List.mem_cons, not_or, forall_eq_or_imp, not_exists, not_and]
        constructor
        · intro h
          rcases h with ⟨hnodup, hfresh⟩
          exact ⟨⟨fun x hx => (hfresh x hx).1, hnodup⟩, hc, fun x hx => (hfresh x hx).2⟩
        · intro h
          rcases h with ⟨⟨hfirst, hnodup⟩, -, hrest⟩
          exact ⟨hnodup, fun x hx => ⟨hfirst x hx, hrest x hx⟩⟩

theorem repeatedColumns_nil_eq_nil_iff {cs : List Column} :
    repeatedColumns [] cs = [] ↔ (cs.map Column.id).Nodup := by
  simp [repeatedColumns_eq_nil_iff]

/-- What is reported unless `p` holds. -/
theorem unless_eq_nil_iff {α : Type} {p : Prop} [Decidable p] {v : α} :
    (if p then [] else [v]) = [] ↔ p := by
  by_cases h : p <;> simp [h]

/-- What is reported if `p` holds. -/
theorem when_eq_nil_iff {α : Type} {p : Prop} [Decidable p] {v : α} :
    (if p then [v] else []) = [] ↔ ¬ p := by
  by_cases h : p <;> simp [h]

/-! ## Indexes, unique constraints and foreign keys -/

theorem Index.violations_eq_nil_iff {i : Index} :
    i.violations = [] ↔ ∀ x ∈ i.columns, x.owner = i.owner := by
  simp [Index.violations, List.filter_eq_nil_iff]

/-- A unique constraint over columns of its own table, none of them twice. -/
structure Unique.Verified (u : Unique) : Prop where
  owner : ∀ x ∈ u.columns, x.owner = u.owner
  nodup : (u.columns.map Column.id).Nodup

theorem Unique.violations_eq_nil_iff {u : Unique} : u.violations = [] ↔ u.Verified := by
  rw [Unique.violations, List.append_eq_nil_iff, List.map_eq_nil_iff, List.map_eq_nil_iff,
    repeatedColumns_nil_eq_nil_iff, List.filter_eq_nil_iff]
  simp only [ne_eq, decide_not, Bool.not_eq_true', decide_eq_false_iff_not, not_not]
  exact ⟨fun h => ⟨h.1, h.2⟩, fun h => ⟨h.owner, h.nodup⟩⟩

/-- A foreign key to another table that pairs as many local as foreign columns, at least one, each
of the right table and none twice. -/
structure ForeignKey.Verified (f : ForeignKey) : Prop where
  target_ne : f.target ≠ f.owner
  foreign_ne_nil : f.foreignColumns ≠ []
  length_eq : f.foreignColumns.length = f.localColumns.length
  localOwner : ∀ x ∈ f.localColumns, x.owner = f.owner
  foreignOwner : ∀ x ∈ f.foreignColumns, x.owner = f.target
  localNodup : (f.localColumns.map Column.id).Nodup
  foreignNodup : (f.foreignColumns.map Column.id).Nodup

theorem ForeignKey.Verified.local_ne_nil {f : ForeignKey} (h : f.Verified) :
    f.localColumns ≠ [] := by
  intro hnil
  have hlen := h.length_eq
  rw [hnil, List.length_nil, List.length_eq_zero_iff] at hlen
  exact h.foreign_ne_nil hlen

/-- In lists of one length, every pair satisfies `q` on the left and `r` on the right exactly when
all left members satisfy `q` and all right members satisfy `r`. -/
theorem forall_mem_zip_iff {α β : Type} {q : α → Prop} {r : β → Prop} :
    ∀ {as : List α} {bs : List β}, as.length = bs.length →
      ((∀ p ∈ as.zip bs, r p.2 ∧ q p.1) ↔ (∀ a ∈ as, q a) ∧ ∀ b ∈ bs, r b)
  | [], [], _ => by simp
  | a :: as, b :: bs, h => by
    have ih := forall_mem_zip_iff (q := q) (r := r) (Nat.succ.inj h)
    rw [List.zip_cons_cons, List.forall_mem_cons, List.forall_mem_cons, List.forall_mem_cons, ih]
    tauto

theorem ForeignKey.pairViolations_eq_nil_iff {f : ForeignKey} {p : Column × Column} :
    f.pairViolations p = [] ↔ p.2.owner = f.target ∧ p.1.owner = f.owner := by
  rw [ForeignKey.pairViolations, List.append_eq_nil_iff, unless_eq_nil_iff, unless_eq_nil_iff]

theorem ForeignKey.violations_eq_nil_iff {f : ForeignKey} : f.violations = [] ↔ f.Verified := by
  simp only [ForeignKey.violations, List.append_eq_nil_iff, unless_eq_nil_iff, when_eq_nil_iff,
    List.flatMap_eq_nil_iff, List.map_eq_nil_iff, repeatedColumns_nil_eq_nil_iff,
    ForeignKey.pairViolations_eq_nil_iff, List.isEmpty_iff]
  constructor
  · intro h
    rcases h with ⟨⟨⟨⟨⟨⟨htarget, hforeign⟩, -⟩, hlen⟩, hpairs⟩, hlocal⟩, hnodup⟩
    obtain ⟨hleft, hright⟩ := (forall_mem_zip_iff (q := fun x : Column => x.owner = f.owner)
      (r := fun x : Column => x.owner = f.target) hlen.symm).mp hpairs
    exact ⟨htarget, hforeign, hlen, hleft, hright, hlocal, hnodup⟩
  · intro h
    exact ⟨⟨⟨⟨⟨⟨h.target_ne, h.foreign_ne_nil⟩, h.local_ne_nil⟩, h.length_eq⟩,
      (forall_mem_zip_iff (q := fun x : Column => x.owner = f.owner)
        (r := fun x : Column => x.owner = f.target) h.length_eq.symm).mpr
        ⟨h.localOwner, h.foreignOwner⟩⟩, h.localNodup⟩,
      h.foreignNodup⟩

/-! ## Tables -/

/-- A table whose parts are all its own, each under its own name, with the primary key in the slots
`1`, `2`, … -/
structure Table.Verified (t : Table) : Prop where
  slots : t.sortedSlots = Table.slotsUpTo t.slots.keys.length
  key : ∀ x ∈ t.slots.values, (t.columns.get? x.name).map Column.id = some x.id
  keyNames : (columnNames t.slots.values).Nodup
  column : ∀ name x, t.columns.get? name = some x → x.owner = t.id ∧ x.name = name
  index : ∀ name i, t.indexes.get? name = some i →
    i.owner = t.id ∧ i.name = name ∧ ∀ x ∈ i.columns, x.owner = i.owner
  foreignKey : ∀ f ∈ t.foreignKeys, f.owner = t.id ∧ f.Verified
  unique : ∀ u ∈ t.uniques, u.owner = t.id ∧ u.Verified

theorem Table.primaryKeyViolations_eq_nil_iff {t : Table} :
    t.primaryKeyViolations = [] ↔ t.sortedSlots = Table.slotsUpTo t.slots.keys.length ∧
      (∀ x ∈ t.slots.values, (t.columns.get? x.name).map Column.id = some x.id) ∧
      (columnNames t.slots.values).Nodup := by
  simp only [Table.primaryKeyViolations, List.append_eq_nil_iff, unless_eq_nil_iff,
    List.map_eq_nil_iff, List.filter_eq_nil_iff, ne_eq, decide_not, Bool.not_eq_true',
    decide_eq_false_iff_not, not_not, and_assoc]

theorem Table.columnViolations_eq_nil_iff {t : Table} :
    t.columnViolations = [] ↔
      ∀ name x, t.columns.get? name = some x → x.owner = t.id ∧ x.name = name := by
  simp only [Table.columnViolations, List.map_eq_nil_iff, List.filter_eq_nil_iff,
    decide_eq_true_eq, not_or, not_not, Prod.forall, OrderedMap.mem_entries_iff_get?]

theorem Table.indexViolations_eq_nil_iff {t : Table} :
    t.indexViolations = [] ↔ ∀ name i, t.indexes.get? name = some i →
      i.owner = t.id ∧ i.name = name ∧ ∀ x ∈ i.columns, x.owner = i.owner := by
  simp only [Table.indexViolations, List.flatMap_eq_nil_iff, List.append_eq_nil_iff,
    when_eq_nil_iff, Index.violations_eq_nil_iff, not_or, not_not, Prod.forall,
    OrderedMap.mem_entries_iff_get?, and_assoc]

theorem Table.foreignKeyViolations_eq_nil_iff {t : Table} :
    t.foreignKeyViolations = [] ↔ ∀ f ∈ t.foreignKeys, f.owner = t.id ∧ f.Verified := by
  simp only [Table.foreignKeyViolations, List.flatMap_eq_nil_iff, List.append_eq_nil_iff,
    when_eq_nil_iff, ForeignKey.violations_eq_nil_iff, not_not]

theorem Table.uniqueViolations_eq_nil_iff {t : Table} :
    t.uniqueViolations = [] ↔ ∀ u ∈ t.uniques, u.owner = t.id ∧ u.Verified := by
  simp only [Table.uniqueViolations, List.flatMap_eq_nil_iff, List.append_eq_nil_iff,
    when_eq_nil_iff, Unique.violations_eq_nil_iff, not_not]

theorem Table.violations_eq_nil_iff {t : Table} : t.violations = [] ↔ t.Verified := by
  simp only [Table.violations, List.append_eq_nil_iff, Table.primaryKeyViolations_eq_nil_iff,
    Table.columnViolations_eq_nil_iff, Table.indexViolations_eq_nil_iff,
    Table.foreignKeyViolations_eq_nil_iff, Table.uniqueViolations_eq_nil_iff]
  constructor
  · intro h
    rcases h with ⟨⟨⟨⟨⟨hslots, hkey, hnames⟩, hcolumn⟩, hindex⟩, hforeign⟩, hunique⟩
    exact ⟨hslots, hkey, hnames, hcolumn, hindex, hforeign, hunique⟩
  · intro h
    exact ⟨⟨⟨⟨⟨h.slots, h.key, h.keyNames⟩, h.column⟩, h.index⟩, h.foreignKey⟩, h.unique⟩

/-! ## Snapshots -/

/-- A snapshot of its own verified tables, each under its own name, in which no index name occurs
on two tables and every foreign key refers to a table of the snapshot. -/
structure Snapshot.Verified (s : Snapshot) : Prop where
  table : ∀ name t, s.tables.get? name = some t → t.schema = s.id ∧ t.name = name ∧ t.Verified
  indexNames : ∀ a t b u, s.tables.get? a = some t → s.tables.get? b = some u →
    ∀ n ∈ t.indexes.keys, u.indexes.contains n = true → a = b
  target : ∀ name t, s.tables.get? name = some t →
    ∀ f ∈ t.foreignKeys, (s.tables.get? f.targetName).map Table.id = some f.target

namespace Snapshot

/-- The rules of one entry that do not look at other entries for index names. -/
structure EntryVerified (s : Snapshot) (e : String × Table) : Prop where
  schema : e.2.schema = s.id
  name : e.2.name = e.1
  table : e.2.Verified
  target : ∀ f ∈ e.2.foreignKeys, (s.tables.get? f.targetName).map Table.id = some f.target

/-- No index name of `e` occurs on `d`. -/
def IndexesApart (d e : String × Table) : Prop :=
  ∀ n ∈ e.2.indexes.keys, d.2.indexes.contains n = false

theorem indexClashes_eq_nil_iff {earlier : List (String × Table)} {e : String × Table} :
    indexClashes earlier e.1 e.2 = [] ↔ ∀ d ∈ earlier, IndexesApart d e := by
  simp only [indexClashes, List.filterMap_eq_nil_iff, Option.map_eq_none_iff, List.find?_eq_none,
    Bool.not_eq_true, IndexesApart]
  exact ⟨fun h d hd n hn => h n hn d hd, fun h n hn d hd => h d hd n hn⟩

theorem entryViolations_eq_nil_iff {s : Snapshot} {earlier : List (String × Table)}
    {e : String × Table} :
    s.entryViolations earlier e.1 e.2 = [] ↔
      s.EntryVerified e ∧ ∀ d ∈ earlier, IndexesApart d e := by
  simp only [entryViolations, List.append_eq_nil_iff, when_eq_nil_iff,
    Table.violations_eq_nil_iff, indexClashes_eq_nil_iff, List.map_eq_nil_iff,
    List.filter_eq_nil_iff, holds, not_or, not_not, Bool.not_eq_true', Bool.not_eq_false,
    beq_iff_eq]
  constructor
  · intro h
    rcases h with ⟨⟨⟨⟨hschema, hname⟩, htable⟩, hapart⟩, htarget⟩
    exact ⟨⟨hschema, hname, htable, htarget⟩, hapart⟩
  · intro h
    rcases h with ⟨h, hapart⟩
    exact ⟨⟨⟨⟨h.schema, h.name⟩, h.table⟩, hapart⟩, h.target⟩

theorem violationsFrom_eq_nil_iff {s : Snapshot} {earlier rest : List (String × Table)} :
    s.violationsFrom earlier rest = [] ↔
      (∀ e ∈ rest, s.EntryVerified e) ∧ (∀ e ∈ rest, ∀ d ∈ earlier, IndexesApart d e) ∧
        rest.Pairwise IndexesApart := by
  induction rest generalizing earlier with
  | nil => simp [violationsFrom]
  | cons e rest ih =>
      rw [violationsFrom, List.append_eq_nil_iff, entryViolations_eq_nil_iff, ih,
        List.pairwise_cons, List.forall_mem_cons, List.forall_mem_cons]
      simp only [List.mem_append, List.mem_singleton]
      constructor
      · intro h
        rcases h with ⟨⟨hown, hearlier⟩, hrest, hapart, hpair⟩
        exact ⟨⟨hown, hrest⟩, ⟨hearlier, fun x hx d hd => hapart x hx d (Or.inl hd)⟩,
          fun x hx => hapart x hx e (Or.inr rfl), hpair⟩
      · intro h
        rcases h with ⟨⟨hown, hrest⟩, ⟨hearlier, hapart⟩, hfirst, hpair⟩
        refine ⟨⟨hown, hearlier⟩, hrest, fun x hx d hd => ?_, hpair⟩
        rcases hd with hd | rfl
        · exact hapart x hx d hd
        · exact hfirst x hx

theorem IndexesApart.symm {d e : String × Table} (h : IndexesApart d e) : IndexesApart e d := by
  intro n hn
  rw [OrderedMap.contains_eq_false_iff, OrderedMap.get?_eq_none_iff]
  intro hmem
  have hfalse := h n hmem
  rw [OrderedMap.contains_eq_false_iff, OrderedMap.get?_eq_none_iff] at hfalse
  exact hfalse hn

instance : Std.Symm IndexesApart := ⟨fun _ _ => IndexesApart.symm⟩

theorem violations_eq_nil_iff {s : Snapshot} : s.violations = [] ↔ s.Verified := by
  rw [violations, violationsFrom_eq_nil_iff]
  constructor
  · intro h
    rcases h with ⟨hentry, -, hapart⟩
    have hown : ∀ name t, s.tables.get? name = some t → s.EntryVerified (name, t) :=
      fun name t h => hentry _ (OrderedMap.mem_entries_iff_get?.mpr h)
    refine ⟨fun name t h => ⟨(hown name t h).schema, (hown name t h).name, (hown name t h).table⟩,
      fun a t b u ha hb n hn hu => ?_, fun name t h => (hown name t h).target⟩
    by_contra hab
    have hne : (b, u) ≠ (a, t) := fun h => hab (congrArg Prod.fst h).symm
    have hfalse := hapart.forall (OrderedMap.mem_entries_iff_get?.mpr hb)
      (OrderedMap.mem_entries_iff_get?.mpr ha) hne n hn
    exact absurd hu (by simp [hfalse])
  · intro h
    refine ⟨?_, by simp, ?_⟩
    · rintro ⟨name, t⟩ he
      have ht := OrderedMap.mem_entries_iff_get?.mp he
      obtain ⟨hschema, hname, htable⟩ := h.table name t ht
      exact ⟨hschema, hname, htable, h.target name t ht⟩
    · -- Two entries of the list have different keys, so a shared index name would break the rule.
      have hkeys : s.tables.entries.Pairwise fun d e => d.1 ≠ e.1 :=
        List.pairwise_map.mp s.tables.nodup
      refine hkeys.imp_of_mem ?_
      rintro ⟨a, t⟩ ⟨b, u⟩ hd he hne n hn
      by_contra hcontains
      rw [Bool.not_eq_false] at hcontains
      have hba := h.indexNames b u a t (OrderedMap.mem_entries_iff_get?.mp he)
        (OrderedMap.mem_entries_iff_get?.mp hd) n hn hcontains
      exact hne hba.symm

/-- Verification succeeds exactly on verified snapshots. -/
theorem verify_eq_ok_iff {s : Snapshot} : s.verify = .ok () ↔ s.Verified := by
  rw [verify, firstOf_eq_ok_iff, violations_eq_nil_iff]

end Snapshot
end SchemaSync
