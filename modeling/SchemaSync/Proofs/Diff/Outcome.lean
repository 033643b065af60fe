import SchemaSync.Proofs.Diff.Attachment

/-!
# What a diff comes to

A diff either says what is wrong with what it is given, in a fixed order, or returns a plan that can be
written as statements. Nothing else happens: a classified table is always found
(`Snapshot.checkRebuilds_eq_ok`), and a key over a single column always has a column to refer to
(`Snapshot.Sound.hasClauses`). The main statement is `Snapshot.diff_outcome`.
-/

namespace SchemaSync

/-! ## Writing statements -/

/-- Operations that can all be written one by one can be written. -/
theorem allStatements_ok {ops : List Operation}
    (h : ∀ op ∈ ops, ∃ statements, op.statements = .ok statements) :
    ∃ statements, Operation.allStatements ops = .ok statements := by
  induction ops with
  | nil => exact ⟨[], rfl⟩
  | cons op ops ih =>
    obtain ⟨⟨first, hfirst⟩, hrest⟩ := List.forall_mem_cons.mp h
    obtain ⟨rest, hall⟩ := ih hrest
    refine ⟨first ++ rest, ?_⟩
    rw [Operation.allStatements, hfirst, hall]
    rfl

theorem allStatements_cons_eq_ok {op : Operation} {ops : List Operation} {statements : List String}
    (h : Operation.allStatements (op :: ops) = .ok statements) : ∃ first rest,
      op.statements = .ok first ∧ Operation.allStatements ops = .ok rest ∧ statements = first ++ rest := by
  rw [Operation.allStatements] at h
  cases hfirst : op.statements with
  | error e =>
    rw [hfirst] at h
    cases h
  | ok first =>
    cases hrest : Operation.allStatements ops with
    | error e =>
      rw [hfirst, hrest] at h
      cases h
    | ok rest =>
      rw [hfirst, hrest] at h
      exact ⟨first, rest, rfl, rfl, (Except.ok.inj h).symm⟩

/-- The statements of an operation stand together among those of all operations. -/
theorem infix_allStatements {op : Operation} {ops : List Operation} {statements : List String} (hop : op ∈ ops)
    (h : Operation.allStatements ops = .ok statements) :
    ∃ block, op.statements = .ok block ∧ block <:+: statements := by
  induction ops generalizing statements with
  | nil => cases hop
  | cons first ops ih =>
    obtain ⟨block, rest, hblock, hrest, rfl⟩ := allStatements_cons_eq_ok h
    rcases List.mem_cons.mp hop with rfl | hmem
    · exact ⟨block, hblock, (List.prefix_append block rest).isInfix⟩
    · obtain ⟨found, hfound, hinfix⟩ := ih hmem hrest
      exact ⟨found, hfound, hinfix.trans (List.suffix_append block rest).isInfix⟩

/-- Every operation is carried out by some statement. -/
theorem Operation.statements_ne_nil {op : Operation} {block : List String} (h : op.statements = .ok block) :
    block ≠ [] := by
  rintro rfl
  cases op with
  | createTable t references =>
    rw [statements] at h
    cases hcreate : Sql.createTable t references none <;> rw [hcreate] at h <;> cases h
  | addForeignKey table column f =>
    rw [statements] at h
    cases hadd : Sql.addForeignKey table column f <;> rw [hadd] at h <;> cases h
  | addColumn table column =>
    have hnone := Except.ok.inj h
    unfold Sql.addColumn Sql.addColumnWith at hnone
    split at hnone <;> cases hnone
  | recreateTable current desired reasons suffix =>
    exact absurd (Except.ok.inj h) (List.append_ne_nil_of_right_ne_nil _ (List.cons_ne_nil _ _))
  | dropIndex | dropForeignKey | dropTable | dropColumn | createIndex => cases h

/-- The statements of a plan that has something to do: there are some, and each rebuilt table goes through the
shadow table whose suffix the plan holds. -/
structure Plan.Written (p : Plan) (statements : List String) : Prop where
  statements_eq : p.statements = .ok statements
  ne_nil : statements ≠ []
  rebuild : ∀ current desired reasons suffix, .recreateTable current desired reasons suffix ∈ p.operations →
    Sql.recreateTable current desired suffix <:+: statements

theorem Plan.written {p : Plan} {statements : List String} (hsome : p.operations ≠ [])
    (h : p.statements = .ok statements) : p.Written statements where
  statements_eq := h
  ne_nil := by
    obtain ⟨op, hop⟩ := List.exists_mem_of_ne_nil _ hsome
    obtain ⟨block, hblock, hinfix⟩ := infix_allStatements hop h
    rintro rfl
    exact Operation.statements_ne_nil hblock (List.infix_nil.mp hinfix)
  rebuild := by
    intro current desired reasons suffix hop
    obtain ⟨block, hblock, hinfix⟩ := infix_allStatements hop h
    obtain rfl : Sql.recreateTable current desired suffix = block := Except.ok.inj hblock
    exact hinfix

namespace Snapshot

variable {current desired : Snapshot} {suffixes : Nat → String} {creationMode : Bool}

/-- Only the reference of a key without foreign columns cannot be written, and a sound snapshot has no
such key over a single column. -/
theorem statements_ok (hc : current.Verified) (hs : desired.Sound) (hd : desired.Verified)
    {op : Operation} (hop : op ∈ operations suffixes current desired creationMode) :
    ∃ statements, op.statements = .ok statements := by
  rcases mem_operations.mp hop with h | h | h | h | h | h | ⟨-, h⟩ | h
  · obtain ⟨n, i, -, rfl⟩ := mem_indexDrops.mp h
    exact ⟨_, rfl⟩
  · obtain ⟨f, -, c, -, rfl⟩ := mem_referenceDrops h
    exact ⟨_, rfl⟩
  · obtain ⟨d, -, -, rfl⟩ := hd.mem_tableCreations.mp h
    exact ⟨_, rfl⟩
  · obtain ⟨t, -, -, rfl⟩ := hc.mem_tableDrops.mp h
    exact ⟨_, rfl⟩
  · obtain ⟨n, t, d, -, -, -, c, -, rfl⟩ := mem_columnDrops.mp h
    exact ⟨_, rfl⟩
  · obtain ⟨n, r, k, -, rfl⟩ := mem_tableRebuilds h
    exact ⟨_, rfl⟩
  · obtain ⟨f, hf, x, hx, rfl⟩ := mem_referenceAdditions h
    obtain ⟨t, ht, hmem⟩ := hs.owner_of_foreignKey hf
    obtain ⟨c, hclause⟩ := hs.hasClauses ht f hmem (ForeignKey.isSingleColumn_of_eq hx)
    refine ⟨[Sql.alterColumn f.ownerName x.name (Sql.definition x ++ " " ++ c.text)], ?_⟩
    rw [Operation.statements, Sql.addForeignKey, Sql.references_of_clause? hclause]
    rfl
  · obtain ⟨n, i, -, rfl⟩ := mem_indexCreations.mp h
    exact ⟨_, rfl⟩

/-- A plan to a sound snapshot can be written as statements. -/
theorem statements_of_diff (hs : desired.Sound) {p : Plan}
    (h : diff suffixes current desired creationMode = .ok p) : ∃ statements, p.statements = .ok statements := by
  obtain ⟨hplannable, rfl⟩ := diff_eq_ok_iff.mp h
  exact allStatements_ok fun op hop => statements_ok (verify_eq_ok_iff.mp hplannable.verifiedCurrent) hs
    (verify_eq_ok_iff.mp hplannable.verifiedDesired) hop

/-! ## The checks in order -/

def HoldsUniqueIndex (s : Snapshot) : Prop :=
  ∃ name t n i, s.tables.get? name = some t ∧ t.indexes.get? n = some i ∧ i.unique = true

/-- A diff may be made in the mode: in creation mode there is no table yet. -/
def Allows (current : Snapshot) (creationMode : Bool) : Prop :=
  creationMode = true → ∀ name, current.tables.contains name = false

/-- What a diff answers: the first thing that is wrong, or a plan that can be written. -/
structure Answers (current desired : Snapshot) (creationMode : Bool) (answer : Except PlanError Plan) :
    Prop where
  creationMode_iff : answer = .error .creationMode ↔
    creationMode = true ∧ ∃ name, current.tables.contains name = true
  current_error : current.Allows creationMode → ∀ v, current.verify = .error v →
    answer = .error (.violation v)
  desired_error : current.Allows creationMode → current.verify = .ok () → ∀ v,
    desired.verify = .error v → answer = .error (.violation v)
  uniqueIndex_iff : current.Allows creationMode → current.verify = .ok () → desired.verify = .ok () →
    ((∃ index table, answer = .error (.violation (.uniqueIndex index table))) ↔
      desired.HoldsUniqueIndex)
  plan : current.Allows creationMode → current.verify = .ok () → desired.verify = .ok () →
    ¬ desired.HoldsUniqueIndex → ∃ p statements, answer = .ok p ∧ p.statements = .ok statements
  /-- No table that the classification names is missing. -/
  found : ∀ name, answer ≠ .error (.missingTable name)

theorem allows_iff : current.Allows creationMode ↔ (creationMode && !current.isEmpty) = false := by
  have hempty : current.isEmpty = true ↔ ∀ name, current.tables.contains name = false := by
    rw [isEmpty, OrderedMap.isEmpty_iff]
    constructor
    · intro h name
      rw [OrderedMap.contains_eq_false_iff, OrderedMap.get?_eq_none_iff, OrderedMap.keys, h]
      exact List.not_mem_nil
    · intro h
      exact OrderedMap.entries_eq_nil fun name => OrderedMap.contains_eq_false_iff.mp (h name)
  unfold Allows
  rw [← hempty]
  cases creationMode <;> simp

theorem not_allows_iff : ¬ current.Allows creationMode ↔
    creationMode = true ∧ ∃ name, current.tables.contains name = true := by
  simp [Allows]

theorem holdsUniqueIndex_iff {s : Snapshot} : s.HoldsUniqueIndex ↔ s.uniqueIndexes ≠ [] := by
  rw [ne_eq, uniqueIndexes_eq_nil_iff]
  simp [HoldsUniqueIndex]

theorem diff_eq_of_not_allows (h : ¬ current.Allows creationMode) :
    diff suffixes current desired creationMode = .error .creationMode := by
  rw [allows_iff, Bool.not_eq_false] at h
  rw [diff, checkPlannable, if_pos h]
  rfl

/-- The later checks, once the mode is allowed. -/
theorem Allows.diff_eq (h : current.Allows creationMode) :
    diff suffixes current desired creationMode =
      match current.verify, desired.verify, desired.uniqueIndexes with
      | .error v, _, _ => .error (.violation v)
      | .ok (), .error v, _ => .error (.violation v)
      | .ok (), .ok (), v :: _ => .error (.violation v)
      | .ok (), .ok (), [] => .ok (Snapshot.plan suffixes current desired creationMode) := by
  rw [diff, checkPlannable, allows_iff.mp h, if_neg Bool.false_ne_true, checkRebuilds_eq_ok]
  cases current.verify with
  | error v => rfl
  | ok u =>
    cases desired.verify with
    | error v => rfl
    | ok u =>
      cases desired.uniqueIndexes with
      | nil => rfl
      | cons v vs => rfl

theorem exists_of_mem_uniqueIndexes {s : Snapshot} {v : Violation} (h : v ∈ s.uniqueIndexes) :
    ∃ index table, v = .uniqueIndex index table := by
  obtain ⟨t, -, h⟩ := List.mem_flatMap.mp h
  obtain ⟨i, -, rfl⟩ := List.mem_map.mp h
  exact ⟨i.name, t.name, rfl⟩

/-- **A diff fails exactly when it should**: for any current and any reachable desired snapshot, in either
mode, it gives the first error of mode, current form, desired form and unique indexes, or else a plan
whose statements can be written. -/
theorem diff_outcome (suffixes : Nat → String) (current : Snapshot) {desired : Snapshot}
    (creationMode : Bool) (hd : desired.Reachable) :
    current.Answers desired creationMode (diff suffixes current desired creationMode) where
  creationMode_iff := by
    rw [← not_allows_iff]
    constructor
    · intro h hallows
      rw [hallows.diff_eq] at h
      split at h <;> cases h
    · exact diff_eq_of_not_allows
  current_error := by
    intro hallows v hv
    rw [hallows.diff_eq, hv]
  desired_error := by
    intro hallows hc v hv
    rw [hallows.diff_eq, hc, hv]
  uniqueIndex_iff := by
    intro hallows hc hdv
    rw [hallows.diff_eq, hc, hdv, holdsUniqueIndex_iff]
    cases hunique : desired.uniqueIndexes with
    | nil => simp
    | cons v vs =>
      obtain ⟨index, table, rfl⟩ := exists_of_mem_uniqueIndexes (hunique ▸ List.mem_cons_self)
      simp
  plan := by
    intro hallows hc hdv hunique
    have hnone : desired.uniqueIndexes = [] := by
      rw [holdsUniqueIndex_iff, not_not] at hunique
      exact hunique
    have hall : ∀ op ∈ operations suffixes current desired creationMode,
        ∃ statements, op.statements = .ok statements := fun op hop =>
      statements_ok (verify_eq_ok_iff.mp hc) (hd.sound hdv) (verify_eq_ok_iff.mp hdv) hop
    obtain ⟨statements, hstatements⟩ := allStatements_ok hall
    refine ⟨Snapshot.plan suffixes current desired creationMode, statements, ?_, hstatements⟩
    rw [hallows.diff_eq, hc, hdv, hnone]
  found := by
    intro name
    by_cases hallows : current.Allows creationMode
    · rw [hallows.diff_eq]
      split <;> simp
    · rw [diff_eq_of_not_allows hallows]
      simp

theorem diff_outcome_earlier_later :
    (ofCommands earlier).Answers (ofCommands later) false
      (diff Nat.repr (ofCommands earlier) (ofCommands later) false) ∧
    ∃ p statements, diff Nat.repr (ofCommands earlier) (ofCommands later) false = .ok p ∧
      p.statements = .ok statements ∧ p.isEmpty = false := by
  have hlater : (ofCommands later).Reachable := reachable_ofCommands (by decide) (by decide)
  have hanswers := diff_outcome Nat.repr (ofCommands earlier) false hlater
  have hplannable := plannable_earlier_later
  have hplain : ¬ (ofCommands later).HoldsUniqueIndex := by
    rw [holdsUniqueIndex_iff, not_not]
    exact hplannable.noUnique
  have hallows : (ofCommands earlier).Allows false := fun h => absurd h Bool.false_ne_true
  obtain ⟨p, statements, hdiff, hstatements⟩ :=
    hanswers.plan hallows hplannable.verifiedCurrent hplannable.verifiedDesired hplain
  refine ⟨hanswers, p, statements, hdiff, hstatements, ?_⟩
  obtain ⟨-, rfl⟩ := diff_eq_ok_iff.mp hdiff
  decide +kernel

end Snapshot
end SchemaSync
