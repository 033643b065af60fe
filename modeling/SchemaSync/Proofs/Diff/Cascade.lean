import SchemaSync.Proofs.Diff.Readiness
import SchemaSync.Proofs.Schema.Canonical
import SchemaSync.Proofs.Schema.References

/-!
# References while tables are rebuilt

A reference over a single column stands in the definition of its column, so it can be detached and
attached by itself. A plan detaches the references of every affected table before it creates, drops or
rebuilds a table, and attaches those of the affected and of the new tables afterwards. A table is
affected if it is rebuilt, or if one of its keys leads to a table that is rebuilt for a structural
reason (`Plan.Affects`). The main statement is `Snapshot.diff_cascades`: no reference is detached or
attached without need, and none that is still desired is lost.
-/

namespace SchemaSync

/-! ## Phases of operations -/

namespace Operation

/-- The phase of a plan that an operation is carried out in. No plan adds a column by itself. -/
def phase : Operation → Nat
  | dropIndex .. => 0
  | dropForeignKey .. => 1
  | createTable .. => 2
  | dropTable .. => 3
  | addColumn .. | dropColumn .. => 4
  | recreateTable .. => 5
  | addForeignKey .. => 6
  | createIndex .. => 7

def isReferenceDrop : Operation → Bool
  | dropForeignKey .. => true
  | _ => false

def isReferenceAddition : Operation → Bool
  | addForeignKey .. => true
  | _ => false

def isTableChange : Operation → Bool
  | createTable .. | dropTable .. | recreateTable .. => true
  | _ => false

theorem isReferenceDrop_eq (op : Operation) : op.isReferenceDrop = (op.phase == 1) := by
  cases op <;> rfl

theorem isReferenceAddition_eq (op : Operation) : op.isReferenceAddition = (op.phase == 6) := by
  cases op <;> rfl

theorem phase_of_isTableChange {op : Operation} (h : op.isTableChange = true) :
    1 < op.phase ∧ op.phase < 6 := by
  cases op with
  | createTable | dropTable | recreateTable => exact ⟨by simp [phase], by simp [phase]⟩
  | _ => cases h

/-- Operations in the order of their phases, none of a later phase than `last`. -/
structure Phased (last : Nat) (ops : List Operation) : Prop where
  le_last : ∀ op ∈ ops, op.phase ≤ last
  sorted : ops.Pairwise fun a b => a.phase ≤ b.phase

theorem Phased.nil : Phased 0 [] := ⟨by simp, List.Pairwise.nil⟩

theorem Phased.append {last k : Nat} {ops more : List Operation} (h : Phased last ops)
    (hlast : last ≤ k) (hmore : ∀ op ∈ more, op.phase = k) : Phased k (ops ++ more) where
  le_last := by
    intro op hop
    rcases List.mem_append.mp hop with hop | hop
    · exact (h.le_last op hop).trans hlast
    · exact (hmore op hop).le
  sorted := by
    refine List.pairwise_append.mpr ⟨h.sorted, ?_, ?_⟩
    · apply List.pairwise_of_forall_mem_list
      intro a ha b hb
      rw [hmore a ha, hmore b hb]
    · intro a ha b hb
      rw [hmore b hb]
      exact (h.le_last a ha).trans hlast

/-- Of a list of one phase, all operations of that phase are kept and none of another one. -/
theorem filter_phase {ops : List Operation} {k : Nat} (h : ∀ op ∈ ops, op.phase = k) (m : Nat) :
    ops.filter (fun op => op.phase == m) = if k = m then ops else [] := by
  split
  · next hkm =>
    apply List.filter_eq_self.mpr
    intro op hop
    rw [h op hop, hkm, beq_self_eq_true]
  · next hkm =>
    apply List.filter_eq_nil_iff.mpr
    intro op hop
    simpa [h op hop] using hkm

end Operation

namespace Snapshot

variable {current desired : Snapshot} {suffixes : Nat → String} {creationMode : Bool}
  {op : Operation}

theorem phase_indexDrops (h : op ∈ indexDrops current desired) : op.phase = 0 := by
  obtain ⟨n, i, -, rfl⟩ := mem_indexDrops.mp h
  rfl

theorem phase_referenceDrops (h : op ∈ referenceDrops current desired) : op.phase = 1 := by
  obtain ⟨f, -, c, -, rfl⟩ := mem_referenceDrops h
  rfl

theorem phase_tableCreations (h : op ∈ tableCreations current desired) : op.phase = 2 := by
  obtain ⟨t, -, rfl⟩ := List.mem_map.mp h
  rfl

theorem phase_tableDrops (h : op ∈ tableDrops current desired) : op.phase = 3 := by
  obtain ⟨t, -, rfl⟩ := List.mem_map.mp h
  rfl

theorem phase_columnDrops (h : op ∈ columnDrops current desired) : op.phase = 4 := by
  obtain ⟨n, t, d, -, -, -, c, -, rfl⟩ := mem_columnDrops.mp h
  rfl

theorem phase_tableRebuilds (h : op ∈ tableRebuilds suffixes current desired) : op.phase = 5 := by
  obtain ⟨n, r, k, -, rfl⟩ := mem_tableRebuilds h
  rfl

theorem phase_attachments (h : op ∈ if creationMode then [] else referenceAdditions current desired) :
    op.phase = 6 := by
  cases creationMode with
  | true => cases h
  | false =>
      obtain ⟨f, -, c, -, rfl⟩ := mem_referenceAdditions h
      rfl

theorem phase_indexCreations (h : op ∈ indexCreations current desired) : op.phase = 7 := by
  obtain ⟨n, i, -, rfl⟩ := mem_indexCreations.mp h
  rfl

theorem phased_operations :
    Operation.Phased 7 (operations suffixes current desired creationMode) := by
  have hstart : Operation.Phased 0 (indexDrops current desired) :=
    Operation.Phased.nil.append le_rfl fun _ => phase_indexDrops
  exact (((((((hstart.append (by decide) fun _ => phase_referenceDrops).append
    (by decide) fun _ => phase_tableCreations).append
    (by decide) fun _ => phase_tableDrops).append
    (by decide) fun _ => phase_columnDrops).append
    (by decide) fun _ => phase_tableRebuilds).append
    (by decide) fun _ => phase_attachments).append
    (by decide) fun _ => phase_indexCreations)

/-- The operations of one phase are those of one of the eight lists. -/
theorem filter_phase_operations (m : Nat) :
    (operations suffixes current desired creationMode).filter (fun op => op.phase == m) =
      (if 0 = m then indexDrops current desired else []) ++
      (if 1 = m then referenceDrops current desired else []) ++
      (if 2 = m then tableCreations current desired else []) ++
      (if 3 = m then tableDrops current desired else []) ++
      (if 4 = m then columnDrops current desired else []) ++
      (if 5 = m then tableRebuilds suffixes current desired else []) ++
      (if 6 = m then if creationMode then [] else referenceAdditions current desired else []) ++
      (if 7 = m then indexCreations current desired else []) := by
  simp only [operations, List.filter_append]
  rw [Operation.filter_phase (fun _ => phase_indexDrops),
    Operation.filter_phase (fun _ => phase_referenceDrops),
    Operation.filter_phase (fun _ => phase_tableCreations),
    Operation.filter_phase (fun _ => phase_tableDrops),
    Operation.filter_phase (fun _ => phase_columnDrops),
    Operation.filter_phase (fun _ => phase_tableRebuilds),
    Operation.filter_phase (fun _ => phase_attachments),
    Operation.filter_phase (fun _ => phase_indexCreations)]

end Snapshot

/-! ## Affected tables -/

def Plan.Rebuilds (p : Plan) (name : String) (reasons : List Reason) : Prop :=
  ∃ t d suffix, .recreateTable t d reasons suffix ∈ p.operations ∧ t.name = name

/-- A table that stands in both snapshots is rebuilt, or one of its foreign keys, over however many
columns, leads to a table that is rebuilt for a structural reason. -/
def Plan.Affects (p : Plan) (current desired : Snapshot) (name : String) : Prop :=
  ∃ t, current.tables.get? name = some t ∧ desired.tables.contains name = true ∧
    ((∃ reasons, p.Rebuilds name reasons) ∨
      ∃ f ∈ t.foreignKeys, ∃ reasons, p.Rebuilds f.targetName reasons ∧
        ∃ r ∈ reasons, r.isStructural = true)

namespace Snapshot

variable {current desired : Snapshot} {suffixes : Nat → String} {creationMode : Bool} {name : String}

/-- A plan rebuilds the tables that are found to need it, for the reasons that are found. -/
theorem plan_rebuilds_iff (hc : current.Verified) (hd : desired.Verified) {reasons : List Reason} :
    (plan suffixes current desired creationMode).Rebuilds name reasons ↔
      ∃ r, (rebuilds current desired).get? name = some r ∧ r.reasons = reasons := by
  constructor
  · intro h
    rcases h with ⟨t, d, suffix, hop, rfl⟩
    have hfilter : .recreateTable t d reasons suffix ∈
        (operations suffixes current desired creationMode).filter fun op => op.phase == 5 :=
      List.mem_filter.mpr ⟨hop, rfl⟩
    rw [filter_phase_operations] at hfilter
    obtain ⟨n, r, k, hr, heq⟩ := mem_tableRebuilds (by simpa using hfilter)
    cases heq
    obtain ⟨hname, -⟩ := name_of_rebuild hc hd hr
    exact ⟨r, hname ▸ hr, rfl⟩
  · intro h
    rcases h with ⟨r, hr, rfl⟩
    obtain ⟨k, hop⟩ := exists_mem_tableRebuilds suffixes hr
    obtain ⟨hname, -⟩ := name_of_rebuild hc hd hr
    exact ⟨r.current, r.desired, suffixes k,
      mem_operations.mpr (Or.inr (Or.inr (Or.inr (Or.inr (Or.inr (Or.inl hop)))))), hname⟩

theorem mem_affected : name ∈ affected current desired ↔
    ∃ n r, (rebuilds current desired).get? n = some r ∧
      (name = n ∨ (r.isStructural = true ∧ desired.tables.contains name = true ∧
        name ∈ (current.referencingTables.get? n).getD [])) := by
  unfold affected
  rw [List.mem_flatMap]
  constructor
  · intro h
    rcases h with ⟨⟨n, r⟩, he, hname⟩
    refine ⟨n, r, OrderedMap.mem_entries_iff_get?.mp he, ?_⟩
    rcases List.mem_append.mp hname with hname | hname
    · rw [List.mem_ite_nil_right, List.mem_filter] at hname
      exact Or.inr ⟨hname.1, hname.2.2, hname.2.1⟩
    · exact Or.inl (List.mem_singleton.mp hname)
  · intro h
    rcases h with ⟨n, r, hr, hname⟩
    refine ⟨(n, r), OrderedMap.mem_entries_iff_get?.mpr hr, List.mem_append.mpr ?_⟩
    rcases hname with rfl | ⟨hstructural, hkept, hrefers⟩
    · exact Or.inr (List.mem_singleton_self _)
    · rw [List.mem_ite_nil_right, List.mem_filter]
      exact Or.inl ⟨hstructural, hrefers, hkept⟩

/-- The tables whose references are let go of are the affected ones. -/
theorem mem_affected_iff (hc : current.Verified) (hd : desired.Verified) :
    name ∈ affected current desired ↔
      (plan suffixes current desired creationMode).Affects current desired name := by
  rw [mem_affected]
  constructor
  · intro h
    rcases h with ⟨n, r, hr, rfl | ⟨hstructural, hkept, hrefers⟩⟩
    · have hrebuilds : (plan suffixes current desired creationMode).Rebuilds name r.reasons :=
        (plan_rebuilds_iff hc hd).mpr ⟨r, hr, rfl⟩
      exact ⟨r.current, get?_current_of_rebuild hr,
        OrderedMap.contains_of_get? (get?_desired_of_rebuild hr), Or.inl ⟨_, hrebuilds⟩⟩
    · obtain ⟨t, ht, hname, f, hf, rfl⟩ := mem_referencingTables.mp hrefers
      obtain ⟨m, ht⟩ := OrderedMap.mem_values_iff.mp ht
      obtain ⟨-, htname, -⟩ := hc.table m t ht
      have hm : m = name := htname.symm.trans hname
      subst hm
      have hrebuilds : (plan suffixes current desired creationMode).Rebuilds f.targetName r.reasons :=
        (plan_rebuilds_iff hc hd).mpr ⟨r, hr, rfl⟩
      exact ⟨t, ht, hkept, Or.inr ⟨f, hf, r.reasons, hrebuilds, List.any_eq_true.mp hstructural⟩⟩
  · intro h
    rcases h with ⟨t, ht, hkept, ⟨reasons, hrebuilds⟩ | ⟨f, hf, reasons, hrebuilds, hstructural⟩⟩
    · obtain ⟨r, hr, -⟩ := (plan_rebuilds_iff hc hd).mp hrebuilds
      exact ⟨name, r, hr, Or.inl rfl⟩
    · obtain ⟨r, hr, rfl⟩ := (plan_rebuilds_iff hc hd).mp hrebuilds
      obtain ⟨-, htname, -⟩ := hc.table name t ht
      refine ⟨f.targetName, r, hr, Or.inr ⟨List.any_eq_true.mpr hstructural, hkept, ?_⟩⟩
      exact mem_referencingTables.mpr
        ⟨t, OrderedMap.mem_values_of_get? ht, htname, f, hf, rfl⟩

/-- A table that is kept and not affected agrees with its desired form. -/
theorem agrees_of_not_affects (hc : current.Verified) (hd : desired.Verified) {t d : Table}
    (ht : current.tables.get? name = some t) (hn : desired.tables.get? name = some d)
    (h : ¬ (plan suffixes current desired creationMode).Affects current desired name) :
    t.Agrees d := by
  rw [← get?_rebuilds_eq_none_iff ht hn, Option.eq_none_iff_forall_ne_some]
  intro r hr
  exact h ((mem_affected_iff hc hd).mp (mem_affected.mpr ⟨name, r, hr, Or.inl rfl⟩))

end Snapshot

/-! ## Detaching and attaching -/

/-- How the reference of a foreign key is detached, if it is over a single column. -/
def ForeignKey.detach? (f : ForeignKey) : Option Operation :=
  f.singleColumn?.map fun c => .dropForeignKey f.ownerName c

def ForeignKey.attach? (f : ForeignKey) : Option Operation :=
  f.singleColumn?.map fun c => .addForeignKey f.ownerName c f

/-- What a plan does to references. -/
structure Plan.Cascades (p : Plan) (current desired : Snapshot) : Prop where
  /-- One reference is detached for each key over a single column of an affected table. -/
  drops : open scoped Classical in p.operations.filter Operation.isReferenceDrop =
    (current.allForeignKeys.filter fun f => p.Affects current desired f.ownerName).filterMap
      ForeignKey.detach?
  /-- One reference is attached for each key over a single column of an affected or new table, but
  none in creation mode. -/
  additions : open scoped Classical in p.operations.filter Operation.isReferenceAddition =
    if p.creationMode then [] else
      (desired.allForeignKeys.filter fun f => p.Affects current desired f.ownerName ∨
        current.tables.contains f.ownerName = false).filterMap ForeignKey.attach?
  order : p.operations.Pairwise fun a b =>
    (b.isReferenceDrop = true → a.isTableChange = false) ∧
      (a.isReferenceAddition = true → b.isTableChange = false)
  /-- What was detached, or lost because its table was rebuilt, is attached again if it is still
  desired. -/
  restored : p.creationMode = false → ∀ f ∈ current.allForeignKeys, ∀ c, f.singleColumn? = some c →
    (.dropForeignKey f.ownerName c ∈ p.operations ∨ ∃ reasons, p.Rebuilds f.ownerName reasons) →
      ∀ g ∈ desired.allForeignKeys, g.ownerName = f.ownerName → g.reading = f.reading →
        ∃ x, g.singleColumn? = some x ∧ x.name = c.name ∧
          .addForeignKey g.ownerName x g ∈ p.operations
  kept : ∀ name t d, current.tables.get? name = some t → desired.tables.get? name = some d →
    ¬ p.Affects current desired name →
      (∀ op ∈ p.operations, op.table = name →
        op.isReferenceDrop = false ∧ op.isReferenceAddition = false) ∧
      t.canonicalForeignKeys = d.canonicalForeignKeys

/-- A key that says the same as one over a single column is over a column of the same name. -/
theorem ForeignKey.singleColumn?_of_reading_eq {f g : ForeignKey} (hf : f.Distinct) (hg : g.Distinct)
    (h : g.reading = f.reading) {c : Column} (hc : f.localColumns = [c]) :
    ∃ x, g.singleColumn? = some x ∧ x.name = c.name := by
  have hnames : (columnNames g.localColumns).toFinset = {c.name} := by
    rw [hg.toFinset_local, h, ← hf.toFinset_local, hc]
    rfl
  have hlength : (columnNames g.localColumns).length = 1 := by
    rw [← List.toFinset_card_of_nodup hg.localNames, hnames, Finset.card_singleton]
  rw [columnNames, List.length_map] at hlength
  obtain ⟨x, hx⟩ := List.length_eq_one_iff.mp hlength
  refine ⟨x, by rw [ForeignKey.singleColumn?, hx], ?_⟩
  rw [hx] at hnames
  simpa [columnNames] using hnames

namespace Snapshot

variable {current desired : Snapshot} {suffixes : Nat → String} {creationMode : Bool}

theorem filter_isReferenceDrop_operations :
    (operations suffixes current desired creationMode).filter Operation.isReferenceDrop =
      referenceDrops current desired := by
  simp only [funext Operation.isReferenceDrop_eq, filter_phase_operations]
  simp

theorem filter_isReferenceAddition_operations :
    (operations suffixes current desired creationMode).filter Operation.isReferenceAddition =
      if creationMode then [] else referenceAdditions current desired := by
  simp only [funext Operation.isReferenceAddition_eq, filter_phase_operations]
  simp

theorem referenceDrops_eq {p : ForeignKey → Bool}
    (hp : ∀ f, p f = true ↔ f.ownerName ∈ affected current desired) :
    referenceDrops current desired =
      (current.allForeignKeys.filter p).filterMap ForeignKey.detach? := by
  unfold referenceDrops
  rw [List.filterMap_filter]
  apply List.filterMap_congr
  intro f _
  have hcontains : (affected current desired).contains f.ownerName = p f := by
    rw [Bool.eq_iff_iff, hp, List.contains_iff_mem]
  rw [hcontains, ForeignKey.detach?]
  cases p f <;> cases f.singleColumn? <;> rfl

theorem referenceAdditions_eq {p : ForeignKey → Bool}
    (hp : ∀ f ∈ desired.allForeignKeys, p f = true ↔ f.ownerName ∈ affected current desired ∨
      f.ownerName ∈ (desired.tablesWithout current).map Table.name) :
    referenceAdditions current desired =
      (desired.allForeignKeys.filter p).filterMap ForeignKey.attach? := by
  unfold referenceAdditions
  rw [List.filterMap_filter]
  apply List.filterMap_congr
  intro f hf
  have hcontains : ((affected current desired).contains f.ownerName ||
      ((desired.tablesWithout current).map Table.name).contains f.ownerName) = p f := by
    rw [Bool.eq_iff_iff, hp f hf, Bool.or_eq_true, List.contains_iff_mem, List.contains_iff_mem]
  rw [hcontains, ForeignKey.attach?]
  cases p f <;> cases f.singleColumn? <;> rfl

/-- A table that a desired key stands on is new exactly if `current` does not hold it. -/
theorem mem_names_tablesWithout (hs : desired.Sound) (hd : desired.Verified) {f : ForeignKey}
    (hf : f ∈ desired.allForeignKeys) :
    f.ownerName ∈ (desired.tablesWithout current).map Table.name ↔
      current.tables.contains f.ownerName = false := by
  rw [List.mem_map, OrderedMap.contains_eq_false_iff]
  constructor
  · intro h
    rcases h with ⟨t, ht, hname⟩
    rw [← hname]
    exact (hd.mem_tablesWithout_iff.mp ht).2
  · intro hnone
    obtain ⟨t, ht, -⟩ := hs.owner_of_foreignKey hf
    obtain ⟨hname, -⟩ := hs.table _ t ht
    refine ⟨t, hd.mem_tablesWithout_iff.mpr ?_, hname⟩
    rw [hname]
    exact ⟨ht, hnone⟩

/-- References are detached of affected tables only. -/
theorem affects_of_dropForeignKey (hc : current.Verified) (hd : desired.Verified) {table : String}
    {c : Column} (h : .dropForeignKey table c ∈ operations suffixes current desired creationMode) :
    (plan suffixes current desired creationMode).Affects current desired table := by
  have hdrop : .dropForeignKey table c ∈ (operations suffixes current desired creationMode).filter
      Operation.isReferenceDrop := List.mem_filter.mpr ⟨h, rfl⟩
  rw [filter_isReferenceDrop_operations] at hdrop
  rw [referenceDrops_eq (p := fun f => (affected current desired).contains f.ownerName)
    fun f => List.contains_iff_mem, List.mem_filterMap] at hdrop
  obtain ⟨f, hf, hdetach⟩ := hdrop
  obtain ⟨x, -, heq⟩ := Option.map_eq_some_iff.mp hdetach
  obtain ⟨rfl, -⟩ := Operation.dropForeignKey.inj heq
  exact (mem_affected_iff hc hd).mp (List.contains_iff_mem.mp (List.mem_filter.mp hf).2)

/-- A reference is attached for a desired key over a single column, if its table is affected or new. -/
theorem mem_referenceAdditions_iff (hs : desired.Sound) (hd : desired.Verified) {op : Operation} :
    op ∈ referenceAdditions current desired ↔ ∃ f ∈ desired.allForeignKeys,
      (f.ownerName ∈ affected current desired ∨ current.tables.contains f.ownerName = false) ∧
        f.attach? = some op := by
  classical
  rw [referenceAdditions_eq (p := fun f => decide (f.ownerName ∈ affected current desired ∨
    current.tables.contains f.ownerName = false)), List.mem_filterMap]
  · simp only [List.mem_filter, decide_eq_true_iff, and_assoc]
  · intro f hf
    rw [decide_eq_true_iff, mem_names_tablesWithout hs hd hf]

/-- References are attached to affected and to new tables only. -/
theorem affects_of_addForeignKey (hc : current.Verified) (hs : desired.Sound) (hd : desired.Verified)
    {table : String} {c : Column} {f : ForeignKey}
    (h : .addForeignKey table c f ∈ operations suffixes current desired creationMode) :
    (plan suffixes current desired creationMode).Affects current desired table ∨
      current.tables.contains table = false := by
  have hadded : .addForeignKey table c f ∈ (operations suffixes current desired creationMode).filter
      Operation.isReferenceAddition := List.mem_filter.mpr ⟨h, rfl⟩
  rw [filter_isReferenceAddition_operations, List.mem_ite_nil_left] at hadded
  obtain ⟨g, -, howner, hattach⟩ := (mem_referenceAdditions_iff hs hd).mp hadded.2
  obtain ⟨x, -, heq⟩ := Option.map_eq_some_iff.mp hattach
  obtain ⟨rfl, -, rfl⟩ := Operation.addForeignKey.inj heq
  exact howner.imp_left (mem_affected_iff hc hd).mp

/-- A key that was detached, or lost with its table, is attached again in the desired form that says the
same. -/
theorem addForeignKey_mem_operations (hc : current.Verified) (hcs : current.Sound)
    (hd : desired.Verified) (hds : desired.Sound) {f g : ForeignKey} {c : Column}
    (hf : f ∈ current.allForeignKeys) (hsingle : f.singleColumn? = some c)
    (hlost : .dropForeignKey f.ownerName c ∈ operations suffixes current desired false ∨
      ∃ reasons, (plan suffixes current desired false).Rebuilds f.ownerName reasons)
    (hg : g ∈ desired.allForeignKeys) (howner : g.ownerName = f.ownerName)
    (hreading : g.reading = f.reading) :
    ∃ x, g.singleColumn? = some x ∧ x.name = c.name ∧
      .addForeignKey g.ownerName x g ∈ operations suffixes current desired false := by
  -- Either way the table of the key is affected, so its desired keys are attached.
  have haffected : g.ownerName ∈ affected current desired := by
    rw [howner]
    rcases hlost with hdrop | ⟨reasons, hrebuilds⟩
    · exact (mem_affected_iff hc hd).mpr (affects_of_dropForeignKey hc hd hdrop)
    · obtain ⟨r, hr, -⟩ := (plan_rebuilds_iff hc hd).mp hrebuilds
      exact mem_affected.mpr ⟨_, r, hr, Or.inl rfl⟩
  obtain ⟨t, ht, hft, hlocal, -⟩ := hcs.owner_of_singleColumn hf hsingle
  obtain ⟨d, hn, hgd⟩ := hds.owner_of_foreignKey hg
  obtain ⟨x, hx, hname⟩ := ForeignKey.singleColumn?_of_reading_eq (hcs.distinct ht hft)
    (hds.distinct hn hgd) hreading hlocal
  have hattach : g.attach? = some (.addForeignKey g.ownerName x g) := by
    rw [ForeignKey.attach?, hx, Option.map_some]
  have hattached : .addForeignKey g.ownerName x g ∈ referenceAdditions current desired :=
    (mem_referenceAdditions_iff hds hd).mpr ⟨g, hg, Or.inl haffected, hattach⟩
  exact ⟨x, hx, hname, mem_operations.mpr
    (Or.inr (Or.inr (Or.inr (Or.inr (Or.inr (Or.inr (Or.inl ⟨rfl, hattached⟩)))))))⟩

/-- References are detached before and attached after all changes of whole tables. -/
theorem pairwise_references_operations :
    (operations suffixes current desired creationMode).Pairwise fun a b =>
      (b.isReferenceDrop = true → a.isTableChange = false) ∧
        (a.isReferenceAddition = true → b.isTableChange = false) := by
  refine phased_operations.sorted.imp ?_
  intro a b hab
  constructor
  · intro hdrop
    by_contra hchange
    have hphase := Operation.phase_of_isTableChange (Bool.not_eq_false _ ▸ hchange)
    rw [Operation.isReferenceDrop_eq, beq_iff_eq] at hdrop
    omega
  · intro haddition
    by_contra hchange
    have hphase := Operation.phase_of_isTableChange (Bool.not_eq_false _ ▸ hchange)
    rw [Operation.isReferenceAddition_eq, beq_iff_eq] at haddition
    omega

/-- **The cascade of foreign keys**: for reachable snapshots that can be planned for there is a plan. It
detaches the references of the affected tables and no others, attaches those of the affected and of the
new tables and no others, does so before and after all changes of whole tables, and so loses no
reference that is still desired. -/
theorem diff_cascades (suffixes : Nat → String) {current desired : Snapshot} {creationMode : Bool}
    (hc : current.Reachable) (hd : desired.Reachable)
    (h : current.Plannable desired creationMode) :
    ∃ p, diff suffixes current desired creationMode = .ok p ∧ p.creationMode = creationMode ∧
      p.Cascades current desired := by
  classical
  have hcs := hc.sound h.verifiedCurrent
  have hds := hd.sound h.verifiedDesired
  have hcv := verify_eq_ok_iff.mp h.verifiedCurrent
  have hdv := verify_eq_ok_iff.mp h.verifiedDesired
  have haffected : ∀ {name : String}, name ∈ affected current desired ↔
      (plan suffixes current desired creationMode).Affects current desired name :=
    mem_affected_iff hcv hdv
  have hadditions : referenceAdditions current desired =
      (desired.allForeignKeys.filter fun f =>
        (plan suffixes current desired creationMode).Affects current desired f.ownerName ∨
          current.tables.contains f.ownerName = false).filterMap ForeignKey.attach? := by
    apply referenceAdditions_eq
    intro f hf
    rw [decide_eq_true_iff, haffected, mem_names_tablesWithout hds hdv hf]
  refine ⟨_, h.diff_eq suffixes, rfl, ?_, ?_, pairwise_references_operations, ?_, ?_⟩
  · show (operations suffixes current desired creationMode).filter _ = _
    rw [filter_isReferenceDrop_operations]
    apply referenceDrops_eq
    intro f
    rw [decide_eq_true_iff, haffected]
  · show (operations suffixes current desired creationMode).filter _ =
      if creationMode = true then [] else _
    rw [filter_isReferenceAddition_operations, hadditions]
  · intro hmode f hf c hsingle hlost g hg howner hreading
    obtain rfl : creationMode = false := hmode
    exact addForeignKey_mem_operations hcv hcs hdv hds hf hsingle hlost hg howner hreading
  · intro name t d ht hn hnot
    refine ⟨?_, (agrees_of_not_affects hcv hdv ht hn hnot).foreignKeys⟩
    intro op hop htable
    cases op with
    | dropForeignKey table c =>
        have hname : table = name := htable
        exact absurd (hname ▸ affects_of_dropForeignKey hcv hdv hop) hnot
    | addForeignKey table c f =>
        have hname : table = name := htable
        subst hname
        rcases affects_of_addForeignKey hcv hds hdv hop with haffects | hnew
        · exact absurd haffects hnot
        · rw [OrderedMap.contains_of_get? ht] at hnew
          cases hnew
    | _ => exact ⟨rfl, rfl⟩

theorem diff_cascades_earlier_later :
    Plannable (ofCommands earlier) (ofCommands later) false ∧
      ∃ p, diff Nat.repr (ofCommands earlier) (ofCommands later) false = .ok p ∧
        p.creationMode = false ∧ p.Cascades (ofCommands earlier) (ofCommands later) :=
  ⟨plannable_earlier_later, diff_cascades Nat.repr (reachable_ofCommands (by decide) (by decide))
    (reachable_ofCommands (by decide) (by decide)) plannable_earlier_later⟩

end Snapshot
end SchemaSync
