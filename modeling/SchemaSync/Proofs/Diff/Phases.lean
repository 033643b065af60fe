import SchemaSync.Proofs.Diff.Database
import SchemaSync.Proofs.Diff.Planning

/-!
# The phases of a plan

A plan is a run of eight lists of operations. For each list this module says which operations it holds
and what it leaves under a table name. Under one name at most one of the lists does anything, apart
from the columns that are dropped one by one, so each statement is either "unchanged" or "the effect of
one operation".
-/

namespace SchemaSync

universe u v w

/-! ## Folds with at most one effect -/

/-- A fold stays where every step leaves it. -/
theorem foldl_eq_of_fixed {α : Type u} {β : Type v} {f : β → α → β} {l : List α} {x : β}
    (h : ∀ a ∈ l, f x a = x) : l.foldl f x = x := by
  induction l with
  | nil => rfl
  | cons a l ih =>
      rw [List.foldl_cons, h a List.mem_cons_self]
      exact ih fun b hb => h b (List.mem_cons_of_mem a hb)

theorem foldl_eq_self {α : Type u} {β : Type v} {f : β → α → β} {l : List α}
    (h : ∀ a ∈ l, ∀ x, f x a = x) (x : β) : l.foldl f x = x :=
  foldl_eq_of_fixed fun a ha => h a ha x

theorem foldl_eq_single {α : Type u} {β : Type v} {κ : Type w} {key : α → κ} {f : β → α → β}
    {l : List α} (hnodup : (l.map key).Nodup) {a : α} (ha : a ∈ l)
    (hother : ∀ b ∈ l, key b ≠ key a → ∀ x, f x b = x) (x : β) : l.foldl f x = f x a := by
  induction l generalizing x with
  | nil => cases ha
  | cons b l ih =>
      obtain ⟨hfresh, hrest⟩ := List.nodup_cons.mp hnodup
      have hne : ∀ c ∈ l, key c ≠ key b := fun c hc heq => hfresh (heq ▸ List.mem_map_of_mem hc)
      rw [List.foldl_cons]
      rcases List.mem_cons.mp ha with rfl | hmem
      · exact foldl_eq_self (fun c hc => hother c (List.mem_cons_of_mem a hc) (hne c hc)) _
      · rw [hother b (by simp) (hne a hmem).symm]
        exact ih hrest hmem (fun c hc => hother c (List.mem_cons_of_mem b hc)) x

/-! ## Numbered lists -/

namespace Snapshot

theorem mem_numbered {α β : Type} {f : Nat → α → β} {b : β} :
    ∀ {l : List α} {start : Nat}, b ∈ numbered f start l → ∃ k, ∃ a ∈ l, f k a = b
  | a :: l, start, h => by
    rcases List.mem_cons.mp h with rfl | h
    · exact ⟨start, a, by simp, rfl⟩
    · obtain ⟨k, c, hc, heq⟩ := mem_numbered h
      exact ⟨k, c, List.mem_cons_of_mem a hc, heq⟩

theorem exists_mem_numbered {α β : Type} {f : Nat → α → β} {a : α} :
    ∀ {l : List α} (start : Nat), a ∈ l → ∃ k, f k a ∈ numbered f start l
  | b :: l, start, h => by
    rcases List.mem_cons.mp h with rfl | h
    · exact ⟨start, List.mem_cons_self⟩
    · obtain ⟨k, hk⟩ := exists_mem_numbered (start + 1) h
      exact ⟨k, List.mem_cons_of_mem _ hk⟩

theorem map_numbered {α β γ : Type} {f : Nat → α → β} {g : β → γ} {h : α → γ}
    (hfg : ∀ k a, g (f k a) = h a) :
    ∀ (l : List α) (start : Nat), (numbered f start l).map g = l.map h
  | [], _ => rfl
  | a :: l, start => by
    show g (f start a) :: (numbered f (start + 1) l).map g = h a :: l.map h
    rw [hfg, map_numbered hfg l]

end Snapshot

/-! ## The table of an operation -/

namespace Operation

def table : Operation → String
  | createTable table _ => table.name
  | recreateTable _ desired _ _ => desired.name
  | dropTable name => name
  | dropIndex table _ | dropForeignKey table _ | addColumn table _ | dropColumn table _
  | addForeignKey table _ _ | createIndex table _ _ => table

/-- A rebuild, if the operation is one, that keeps the name of its table. -/
def KeepsName : Operation → Prop
  | recreateTable current desired _ _ => current.name = desired.name
  | _ => True

/-- An operation leaves every table alone but its own. -/
theorem onTable_of_ne (op : Operation) (hkeeps : op.KeepsName) {n : String} (h : op.table ≠ n)
    (x : Option TableForm) : op.onTable n x = x := by
  cases op with
  | recreateTable current desired reasons suffix =>
      have hdesired : desired.name ≠ n := h
      have hsame : current.name = desired.name := hkeeps
      have hcurrent : current.name ≠ n := hsame ▸ hdesired
      show (if desired.name = n then _ else if current.name = n then none else x) = x
      rw [if_neg hdesired, if_neg hcurrent]
  | createTable table references => exact if_neg h
  | dropTable name => exact if_neg h
  | addColumn table column => exact if_neg h
  | dropColumn table name => exact if_neg h
  | dropIndex table name => rfl
  | dropForeignKey table column => rfl
  | addForeignKey table column f => rfl
  | createIndex table name columns => rfl

end Operation

namespace Database

variable {db : Database} {ops : List Operation} {n : String}

theorem get?_tables_run_of_ne (hkeeps : ∀ op ∈ ops, op.KeepsName) (h : ∀ op ∈ ops, op.table ≠ n) :
    (db.run ops).tables.get? n = db.tables.get? n := by
  rw [get?_tables_run]
  exact foldl_eq_self (fun op hop x => Operation.onTable_of_ne op (hkeeps op hop) (h op hop) x) _

theorem get?_tables_run_of_mem (db : Database) (hkeeps : ∀ op ∈ ops, op.KeepsName)
    (hnodup : (ops.map Operation.table).Nodup) {op : Operation} (hop : op ∈ ops) :
    (db.run ops).tables.get? op.table = op.onTable op.table (db.tables.get? op.table) := by
  rw [get?_tables_run]
  exact foldl_eq_single hnodup hop
    (fun o ho hne x => Operation.onTable_of_ne o (hkeeps o ho) hne x) _

end Database

/-! ## Members of the phases -/

namespace Snapshot

variable {current desired : Snapshot} {op : Operation}

theorem mem_indexDrops : op ∈ indexDrops current desired ↔
    ∃ n i, (indexesToRemove current desired).get? n = some i ∧
      .dropIndex i.ownerName i.name = op := OrderedMap.mem_map_values_iff

theorem mem_indexCreations : op ∈ indexCreations current desired ↔
    ∃ n i, (indexesToAdd current desired).get? n = some i ∧
      .createIndex i.ownerName i.name (columnNames i.columns) = op := OrderedMap.mem_map_values_iff

theorem Verified.mem_tableCreations (hd : desired.Verified) : op ∈ tableCreations current desired ↔
    ∃ d, desired.tables.get? d.name = some d ∧ current.tables.get? d.name = none ∧
      .createTable d false = op := by
  unfold tableCreations
  simp only [List.mem_map, hd.mem_tablesWithout_iff, and_assoc]

theorem Verified.mem_tableDrops (hc : current.Verified) : op ∈ tableDrops current desired ↔
    ∃ t, current.tables.get? t.name = some t ∧ desired.tables.get? t.name = none ∧
      .dropTable t.name = op := by
  unfold tableDrops
  simp only [List.mem_map, hc.mem_tablesWithout_iff, and_assoc]

theorem mem_tableRebuilds {suffixes : Nat → String} (h : op ∈ tableRebuilds suffixes current desired) :
    ∃ n r k, (rebuilds current desired).get? n = some r ∧
      .recreateTable r.current r.desired r.reasons (suffixes k) = op := by
  obtain ⟨k, r, hr, rfl⟩ := mem_numbered h
  obtain ⟨n, hn⟩ := OrderedMap.mem_values_iff.mp hr
  exact ⟨n, r, k, hn, rfl⟩

theorem exists_mem_tableRebuilds (suffixes : Nat → String) {n : String} {r : Rebuild}
    (h : (rebuilds current desired).get? n = some r) :
    ∃ k, .recreateTable r.current r.desired r.reasons (suffixes k) ∈
      tableRebuilds suffixes current desired :=
  exists_mem_numbered 0 (OrderedMap.mem_values_of_get? h)

def entryColumnDrops (current desired : Snapshot) (e : String × Table) : List Operation :=
  match desired.tables.get? e.1 with
  | none => []
  | some d =>
    if (rebuilds current desired).contains e.1 then []
    else (removedColumns e.2 d).map fun c => .dropColumn e.2.name c.name

theorem columnDrops_eq :
    columnDrops current desired = current.tables.entries.flatMap (entryColumnDrops current desired) :=
  rfl

theorem entryColumnDrops_kept {e : String × Table} {d : Table}
    (hd : desired.tables.get? e.1 = some d) (hnone : (rebuilds current desired).get? e.1 = none) :
    entryColumnDrops current desired e =
      (removedColumns e.2 d).map fun c => .dropColumn e.2.name c.name := by
  unfold entryColumnDrops
  rw [hd, OrderedMap.contains_eq_false_iff.mpr hnone]
  rfl

theorem mem_entryColumnDrops {e : String × Table} (h : op ∈ entryColumnDrops current desired e) :
    ∃ d, desired.tables.get? e.1 = some d ∧ (rebuilds current desired).get? e.1 = none ∧
      ∃ c ∈ removedColumns e.2 d, .dropColumn e.2.name c.name = op := by
  unfold entryColumnDrops at h
  split at h
  · cases h
  · next d hd =>
    split at h
    · cases h
    · next hrebuilt =>
      have hnone := OrderedMap.contains_eq_false_iff.mp (Bool.not_eq_true _ ▸ hrebuilt)
      obtain ⟨c, hc, rfl⟩ := List.mem_map.mp h
      exact ⟨d, hd, hnone, c, hc, rfl⟩

theorem mem_columnDrops : op ∈ columnDrops current desired ↔
    ∃ n t d, current.tables.get? n = some t ∧ desired.tables.get? n = some d ∧
      (rebuilds current desired).get? n = none ∧
      ∃ c ∈ removedColumns t d, .dropColumn t.name c.name = op := by
  rw [columnDrops_eq, List.mem_flatMap]
  constructor
  · intro h
    rcases h with ⟨⟨n, t⟩, he, hop⟩
    obtain ⟨d, hd, hnone, hcolumn⟩ := mem_entryColumnDrops hop
    exact ⟨n, t, d, OrderedMap.mem_entries_iff_get?.mp he, hd, hnone, hcolumn⟩
  · intro h
    rcases h with ⟨n, t, d, ht, hd, hnone, c, hc, rfl⟩
    refine ⟨(n, t), OrderedMap.mem_entries_iff_get?.mpr ht, ?_⟩
    rw [entryColumnDrops_kept hd hnone]
    exact List.mem_map_of_mem hc

/-- An operation that is made for some of the keys over a single column comes from one of them. -/
theorem mem_perReference {keys : List ForeignKey} {wanted : ForeignKey → Bool}
    {make : ForeignKey → Column → Operation}
    (h : op ∈ keys.filterMap fun f => f.singleColumn?.bind fun c => if wanted f then some (make f c) else none) :
    ∃ f ∈ keys, ∃ c, f.singleColumn? = some c ∧ make f c = op := by
  obtain ⟨f, hf, hop⟩ := List.mem_filterMap.mp h
  obtain ⟨c, hc, hop⟩ := Option.bind_eq_some_iff.mp hop
  split at hop
  · exact ⟨f, hf, c, hc, Option.some.inj hop⟩
  · cases hop

theorem mem_referenceDrops (h : op ∈ referenceDrops current desired) :
    ∃ f ∈ current.allForeignKeys, ∃ c, f.singleColumn? = some c ∧
      .dropForeignKey f.ownerName c = op := mem_perReference h

theorem mem_referenceAdditions (h : op ∈ referenceAdditions current desired) :
    ∃ f ∈ desired.allForeignKeys, ∃ c, f.singleColumn? = some c ∧
      .addForeignKey f.ownerName c f = op := mem_perReference h

theorem mem_operations {suffixes : Nat → String} {creationMode : Bool} :
    op ∈ operations suffixes current desired creationMode ↔
      op ∈ indexDrops current desired ∨ op ∈ referenceDrops current desired ∨
        op ∈ tableCreations current desired ∨ op ∈ tableDrops current desired ∨
        op ∈ columnDrops current desired ∨ op ∈ tableRebuilds suffixes current desired ∨
        (creationMode = false ∧ op ∈ referenceAdditions current desired) ∨
        op ∈ indexCreations current desired := by
  cases creationMode <;> simp [operations]

/-! ## Tables after each phase -/

variable {db : Database} {n : String}

theorem tables_indexDrops :
    (db.run (indexDrops current desired)).tables.get? n = db.tables.get? n := by
  rw [Database.get?_tables_run]
  apply foldl_eq_self
  intro op hop x
  obtain ⟨m, i, -, rfl⟩ := mem_indexDrops.mp hop
  rfl

theorem tables_indexCreations :
    (db.run (indexCreations current desired)).tables.get? n = db.tables.get? n := by
  rw [Database.get?_tables_run]
  apply foldl_eq_self
  intro op hop x
  obtain ⟨m, i, -, rfl⟩ := mem_indexCreations.mp hop
  rfl

theorem run_referenceDrops : db.run (referenceDrops current desired) = db := by
  apply foldl_eq_self
  intro op hop x
  obtain ⟨f, -, c, -, rfl⟩ := mem_referenceDrops hop
  rfl

theorem run_referenceAdditions : db.run (referenceAdditions current desired) = db := by
  apply foldl_eq_self
  intro op hop x
  obtain ⟨f, -, c, -, rfl⟩ := mem_referenceAdditions hop
  rfl

theorem Verified.nodup_table_tableCreations (hd : desired.Verified) :
    ((tableCreations current desired).map Operation.table).Nodup := by
  unfold tableCreations
  rw [List.map_map]
  exact hd.nodup_tablesWithout current

theorem Verified.keepsName_tableCreations (hd : desired.Verified) :
    ∀ op ∈ tableCreations current desired, op.KeepsName := by
  intro op hop
  obtain ⟨d, -, -, rfl⟩ := hd.mem_tableCreations.mp hop
  trivial

theorem Verified.tables_tableCreations_new (hd : desired.Verified) {d : Table}
    (hn : desired.tables.get? n = some d) (hnew : current.tables.get? n = none) :
    (db.run (tableCreations current desired)).tables.get? n = some d.form := by
  obtain ⟨-, hname, -⟩ := hd.table n d hn
  subst hname
  have hop : .createTable d false ∈ tableCreations current desired :=
    hd.mem_tableCreations.mpr ⟨d, hn, hnew, rfl⟩
  have hrun := Database.get?_tables_run_of_mem db hd.keepsName_tableCreations
    hd.nodup_table_tableCreations hop
  exact hrun.trans (if_pos rfl)

theorem Verified.tables_tableCreations_other (hd : desired.Verified)
    (h : desired.tables.get? n = none ∨ current.tables.get? n ≠ none) :
    (db.run (tableCreations current desired)).tables.get? n = db.tables.get? n := by
  apply Database.get?_tables_run_of_ne hd.keepsName_tableCreations
  intro op hop hname
  obtain ⟨d, hdesired, hcurrent, rfl⟩ := hd.mem_tableCreations.mp hop
  replace hname : d.name = n := hname
  subst hname
  rcases h with h | h
  · rw [h] at hdesired
    cases hdesired
  · exact h hcurrent

theorem Verified.nodup_table_tableDrops (hc : current.Verified) :
    ((tableDrops current desired).map Operation.table).Nodup := by
  unfold tableDrops
  rw [List.map_map]
  exact hc.nodup_tablesWithout desired

theorem Verified.keepsName_tableDrops (hc : current.Verified) :
    ∀ op ∈ tableDrops current desired, op.KeepsName := by
  intro op hop
  obtain ⟨d, -, -, rfl⟩ := hc.mem_tableDrops.mp hop
  trivial

theorem Verified.tables_tableDrops_gone (hc : current.Verified) {t : Table}
    (hn : current.tables.get? n = some t) (hgone : desired.tables.get? n = none) :
    (db.run (tableDrops current desired)).tables.get? n = none := by
  obtain ⟨-, hname, -⟩ := hc.table n t hn
  subst hname
  have hop : .dropTable t.name ∈ tableDrops current desired :=
    hc.mem_tableDrops.mpr ⟨t, hn, hgone, rfl⟩
  have hrun := Database.get?_tables_run_of_mem db hc.keepsName_tableDrops
    hc.nodup_table_tableDrops hop
  exact hrun.trans (if_pos rfl)

theorem Verified.tables_tableDrops_other (hc : current.Verified)
    (h : current.tables.get? n = none ∨ desired.tables.get? n ≠ none) :
    (db.run (tableDrops current desired)).tables.get? n = db.tables.get? n := by
  apply Database.get?_tables_run_of_ne hc.keepsName_tableDrops
  intro op hop hname
  obtain ⟨t, hcurrent, hdesired, rfl⟩ := hc.mem_tableDrops.mp hop
  replace hname : t.name = n := hname
  subst hname
  rcases h with h | h
  · rw [h] at hcurrent
    cases hcurrent
  · exact h hdesired

theorem name_of_rebuild (hc : current.Verified) (hd : desired.Verified) {r : Rebuild}
    (h : (rebuilds current desired).get? n = some r) : r.current.name = n ∧ r.desired.name = n :=
  ⟨(hc.table n _ (get?_current_of_rebuild h)).2.1, (hd.table n _ (get?_desired_of_rebuild h)).2.1⟩

variable {suffixes : Nat → String}

/-- The rebuilt tables, in the order of the operations. -/
theorem map_table_tableRebuilds (hc : current.Verified) (hd : desired.Verified) :
    (tableRebuilds suffixes current desired).map Operation.table = (rebuilds current desired).keys := by
  have htables : (tableRebuilds suffixes current desired).map Operation.table =
      (rebuilds current desired).values.map fun r => r.desired.name := by
    unfold tableRebuilds
    apply map_numbered
    intro k r
    rfl
  rw [htables]
  exact OrderedMap.map_values_eq_keys fun name r hr => (name_of_rebuild hc hd hr).2

theorem nodup_table_tableRebuilds (hc : current.Verified) (hd : desired.Verified) :
    ((tableRebuilds suffixes current desired).map Operation.table).Nodup := by
  rw [map_table_tableRebuilds hc hd]
  exact OrderedMap.nodup_keys _

theorem keepsName_tableRebuilds (hc : current.Verified) (hd : desired.Verified) :
    ∀ op ∈ tableRebuilds suffixes current desired, op.KeepsName := by
  intro op hop
  obtain ⟨m, r, k, hr, rfl⟩ := mem_tableRebuilds hop
  obtain ⟨hcurrent, hdesired⟩ := name_of_rebuild hc hd hr
  exact hcurrent.trans hdesired.symm

theorem tables_tableRebuilds_rebuilt (hc : current.Verified) (hd : desired.Verified) {r : Rebuild}
    (h : (rebuilds current desired).get? n = some r) :
    (db.run (tableRebuilds suffixes current desired)).tables.get? n = some r.desired.form := by
  obtain ⟨-, hname⟩ := name_of_rebuild hc hd h
  obtain ⟨k, hop⟩ := exists_mem_tableRebuilds suffixes h
  subst hname
  have hrun := Database.get?_tables_run_of_mem db (keepsName_tableRebuilds hc hd)
    (nodup_table_tableRebuilds hc hd) hop
  exact hrun.trans (if_pos rfl)

theorem tables_tableRebuilds_other (hc : current.Verified) (hd : desired.Verified)
    (h : (rebuilds current desired).get? n = none) :
    (db.run (tableRebuilds suffixes current desired)).tables.get? n = db.tables.get? n := by
  apply Database.get?_tables_run_of_ne (keepsName_tableRebuilds hc hd)
  intro op hop hname
  obtain ⟨m, r, k, hr, rfl⟩ := mem_tableRebuilds hop
  obtain ⟨-, hdesired⟩ := name_of_rebuild hc hd hr
  have hmn : m = n := hdesired.symm.trans hname
  rw [hmn, h] at hr
  cases hr

end Snapshot

/-! ## Dropped columns -/

def TableForm.without (t : TableForm) (names : List String) : TableForm :=
  { t with columns := t.columns.filter fun name _ => !names.contains name }

theorem TableForm.without_cons (t : TableForm) (name : String) (names : List String) :
    (t.withoutColumn name).without names = t.without (name :: names) := by
  unfold without withoutColumn
  congr 1
  apply OrderedMap.ext
  show (t.columns.entries.filter _).filter _ = t.columns.entries.filter _
  rw [List.filter_filter]
  apply List.filter_congr
  intro e _
  show (!names.contains e.1 && !decide (e.1 = name)) = !(name :: names).contains e.1
  rw [List.contains_cons, Bool.not_or, Bool.and_comm]
  rfl

theorem TableForm.without_nil (t : TableForm) : t.without [] = t := by
  have hcolumns : (t.columns.filter fun name _ => !([] : List String).contains name) = t.columns := by
    apply OrderedMap.ext
    exact List.filter_eq_self.mpr fun _ _ => rfl
  unfold without
  rw [hcolumns]

/-- Dropping columns one by one is dropping them all. -/
theorem foldl_dropColumn (n : String) (names : List String) (x : Option TableForm) :
    (names.map fun name => Operation.dropColumn n name).foldl (fun x op => op.onTable n x) x =
      x.map fun t => t.without names := by
  rw [List.foldl_map]
  induction names generalizing x with
  | nil =>
      show x = x.map fun t => t.without []
      simp only [TableForm.without_nil, Option.map_id']
  | cons name names ih =>
      have hstep : (Operation.dropColumn n name).onTable n x = x.map fun t => t.withoutColumn name :=
        if_pos rfl
      rw [List.foldl_cons, ih, hstep, Option.map_map]
      apply congrArg (fun f => x.map f)
      funext t
      exact t.without_cons name names

namespace Snapshot

variable {current desired : Snapshot} {db : Database} {n : String}

theorem Verified.tables_columnDrops_other (hc : current.Verified)
    (h : desired.tables.get? n = none ∨ current.tables.get? n = none ∨
      (rebuilds current desired).get? n ≠ none) :
    (db.run (columnDrops current desired)).tables.get? n = db.tables.get? n := by
  rw [Database.get?_tables_run]
  apply foldl_eq_self
  intro op hop x
  obtain ⟨m, t, d, ht, hd, hnone, c, -, rfl⟩ := mem_columnDrops.mp hop
  obtain ⟨-, hname, -⟩ := hc.table m t ht
  apply if_neg
  intro heq
  rw [heq] at hname
  subst hname
  rcases h with h | h | h
  · rw [h] at hd
    cases hd
  · rw [h] at ht
    cases ht
  · exact h hnone

theorem Verified.tables_columnDrops_kept (hc : current.Verified) {t d : Table}
    (ht : current.tables.get? n = some t) (hd : desired.tables.get? n = some d)
    (hnone : (rebuilds current desired).get? n = none) :
    (db.run (columnDrops current desired)).tables.get? n =
      (db.tables.get? n).map fun x => x.without (columnNames (removedColumns t d)) := by
  -- The entries of other tables drop no column of this one.
  have hentry : (n, t) ∈ current.tables.entries := OrderedMap.mem_entries_iff_get?.mpr ht
  have hother : ∀ e ∈ current.tables.entries, e.1 ≠ n → ∀ x : Option TableForm,
      (entryColumnDrops current desired e).foldl (fun x op => op.onTable n x) x = x := by
    rintro ⟨m, u⟩ he hne x
    obtain ⟨-, hname, -⟩ := hc.table m u (OrderedMap.mem_entries_iff_get?.mp he)
    apply foldl_eq_self
    intro op hop y
    obtain ⟨-, -, -, c, -, rfl⟩ := mem_entryColumnDrops hop
    exact if_neg fun heq => hne (hname.symm.trans heq)
  obtain ⟨-, hname, -⟩ := hc.table n t ht
  rw [Database.get?_tables_run, columnDrops_eq, List.foldl_flatMap,
    foldl_eq_single current.tables.nodup hentry hother, entryColumnDrops_kept hd hnone]
  show ((removedColumns t d).map fun c => Operation.dropColumn t.name c.name).foldl _ _ = _
  rw [hname, ← foldl_dropColumn, columnNames, List.map_map]
  rfl

end Snapshot
end SchemaSync
