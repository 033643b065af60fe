import SchemaSync.Proofs.Diff.Planning
import SchemaSync.Proofs.Schema.Outlines

/-!
# What a plan sees of a changed constraint

A plan names the reasons for which it rebuilds a table. The reasons are found by comparing canonical
forms, so a plan sees what the canonical forms tell apart. For primary keys that hold a column these are
the sets of column names: the plan says `pk` exactly if they differ (`Snapshot.diff_lists_primaryKey`).
For unique constraints these are the words of all constraints run together (`constraintWords`): the plan
says `uniques` exactly if they differ, and misses a change of the constraints that leaves them as they are
(`Snapshot.diff_lists_uniques`). For foreign keys these are their outlines: the plan misses a change of
the pairing of columns (`Snapshot.diff_lists_foreignKeys`).
-/

namespace SchemaSync

def Plan.Lists (p : Plan) (name : String) (reason : Reason) : Prop :=
  ∃ reasons, p.changes.get? name = some (.recreate reasons) ∧ reason ∈ reasons

/-! ## Structural reasons -/

namespace Table

variable {t d : Table} {r : Reason}

/-- Columns as they are edited give no structural reason. -/
theorem isStructural_of_mem_editReasons (h : r ∈ t.editReasons d) : r.isStructural = false := by
  obtain ⟨c, -, hr⟩ := List.mem_flatMap.mp h
  cases hx : d.columns.get? c.name with
  | none =>
      rw [hx] at hr
      cases hr
  | some x =>
      rw [hx] at hr
      have hreasons : r ∈ columnReasons t.name c x := by
        by_cases hsame : c.sameDefinition x = true
        · simp [hsame] at hr
        · simpa [hsame] using hr
      -- Each of the three reasons is about one property of a column.
      simp only [columnReasons, List.mem_append, List.mem_ite_nil_left, List.mem_singleton] at hreasons
      rcases hreasons with (⟨-, rfl⟩ | ⟨-, rfl⟩) | ⟨-, rfl⟩ <;> rfl

theorem mem_rebuildReasons_iff (hr : r.isStructural = true) :
    r ∈ t.rebuildReasons d ↔ r ∈ t.structuralReasons d := by
  unfold rebuildReasons
  rw [List.mem_append]
  constructor
  · intro h
    apply h.resolve_left
    intro hedit
    rw [isStructural_of_mem_editReasons hedit] at hr
    cases hr
  · exact Or.inr

theorem primaryKey_mem_rebuildReasons_iff :
    .primaryKey ∈ t.rebuildReasons d ↔ t.canonicalPrimaryKey ≠ d.canonicalPrimaryKey := by
  rw [mem_rebuildReasons_iff rfl]
  simp [structuralReasons, List.mem_ite_nil_left, List.mem_ite_nil_right]

theorem uniques_mem_rebuildReasons_iff :
    .uniques ∈ t.rebuildReasons d ↔ t.canonicalUniques ≠ d.canonicalUniques := by
  rw [mem_rebuildReasons_iff rfl]
  simp [structuralReasons, List.mem_ite_nil_left, List.mem_ite_nil_right]

theorem foreignKeys_mem_rebuildReasons_iff :
    .foreignKeys ∈ t.rebuildReasons d ↔ t.canonicalForeignKeys ≠ d.canonicalForeignKeys := by
  rw [mem_rebuildReasons_iff rfl]
  simp [structuralReasons, List.mem_ite_nil_left, List.mem_ite_nil_right]

end Table

namespace Snapshot

variable {current desired : Snapshot} {suffixes : Nat → String} {creationMode : Bool}

/-- The reasons that a plan gives are those for which the table has to be rebuilt. -/
theorem plan_lists_iff {name : String} {t d : Table} {r : Reason}
    (ht : current.tables.get? name = some t) (hd : desired.tables.get? name = some d) :
    (plan suffixes current desired creationMode).Lists name r ↔ r ∈ t.rebuildReasons d := by
  constructor
  · intro h
    rcases h with ⟨reasons, hchange, hmem⟩
    obtain ⟨q, hq, rfl⟩ := get?_changes_eq_recreate_iff.mp hchange
    obtain ⟨t', d', ht', hd', -, rfl⟩ := get?_rebuilds_eq_some_iff.mp hq
    rw [ht] at ht'
    rw [hd] at hd'
    cases ht'
    cases hd'
    exact hmem
  · intro hmem
    have hne : t.rebuildReasons d ≠ [] := List.ne_nil_of_mem hmem
    have hrebuilt := get?_rebuilds_eq_some_iff.mpr ⟨t, d, ht, hd, hne, rfl⟩
    exact ⟨_, get?_changes_eq_recreate_iff.mpr ⟨_, hrebuilt, rfl⟩, hmem⟩

/-! ## Primary keys -/

/-- **What is seen of the primary key**: two lists that both hold a column, and no name twice, have the same
canonical form exactly if they have the same set of names. So a table whose primary key holds a column in both of
two verified snapshots has `pk` among its reasons exactly if the sets of key columns differ, and a plan gives it. -/
theorem diff_lists_primaryKey :
    (∀ a b : List Column, a ≠ [] → b ≠ [] → (columnNames a).Nodup → (columnNames b).Nodup →
      (canonicalColumns a = canonicalColumns b ↔ (columnNames a).toFinset = (columnNames b).toFinset)) ∧
    ∀ (current desired : Snapshot) (name : String) (t d : Table),
      current.verify = .ok () → desired.verify = .ok () →
      current.tables.get? name = some t → desired.tables.get? name = some d →
      t.primaryKey ≠ [] → d.primaryKey ≠ [] →
        (.primaryKey ∈ t.rebuildReasons d ↔ t.keySet ≠ d.keySet) ∧
        ∀ suffixes creationMode, current.Plannable desired creationMode →
          ∃ p, diff suffixes current desired creationMode = .ok p ∧
            (p.Lists name .primaryKey ↔ t.keySet ≠ d.keySet) := by
  constructor
  · intro a b hane hbne ha hb
    exact canonicalColumns_eq_iff_of_ne_nil ha hb hane hbne
  · intro current desired name t d hc hd ht hn htkey hdkey
    have htable := ((verify_eq_ok_iff.mp hc).table name t ht).2.2
    have hdesired := ((verify_eq_ok_iff.mp hd).table name d hn).2.2
    have hreason : .primaryKey ∈ t.rebuildReasons d ↔ t.keySet ≠ d.keySet := by
      rw [Table.primaryKey_mem_rebuildReasons_iff, not_iff_not]
      exact canonicalColumns_eq_iff_of_ne_nil (Table.nodup_primaryKey htable.keyNames)
        (Table.nodup_primaryKey hdesired.keyNames) htkey hdkey
    refine ⟨hreason, fun suffixes creationMode h => ⟨_, h.diff_eq suffixes, ?_⟩⟩
    rw [plan_lists_iff ht hn, hreason]

/-- A table with a primary key over some of three columns; the name of the third one holds the delimiter. -/
def keyCommands (names : List String) : List Edit.Command :=
  [.createSnapshot, .createTable ⟨0⟩ "pairs",
    .createColumn ⟨0⟩ ⟨"a", "TEXT", true, none, false, false⟩,
    .createColumn ⟨0⟩ ⟨"b", "TEXT", true, none, false, false⟩,
    .createColumn ⟨0⟩ ⟨"a,b", "TEXT", true, none, false, false⟩,
    .setPrimaryKey ⟨0⟩ (names.map .named)]

def keyTable (names : List String) : Table := (Edit.Command.run .empty (keyCommands names)).table ⟨0⟩

/-- A key over two columns is not taken for one over the column whose name joins theirs, and the order of the two
does not count. -/
theorem diff_lists_primaryKey_pairs :
    canonicalColumns (keyTable ["a,b"]).primaryKey ≠ canonicalColumns (keyTable ["a", "b"]).primaryKey ∧
    (∃ p, diff Nat.repr (ofCommands (keyCommands ["a,b"])) (ofCommands (keyCommands ["a", "b"])) false = .ok p ∧
      p.Lists "pairs" .primaryKey) ∧
    ∃ p, diff Nat.repr (ofCommands (keyCommands ["b", "a"])) (ofCommands (keyCommands ["a", "b"])) false = .ok p ∧
      ¬ p.Lists "pairs" .primaryKey := by
  obtain ⟨hcanonical, hdiff⟩ := diff_lists_primaryKey
  have hjoined : columnNames (keyTable ["a,b"]).primaryKey = ["a,b"] := by cbv
  have hordered : columnNames (keyTable ["a", "b"]).primaryKey = ["a", "b"] := by cbv
  have hturned : columnNames (keyTable ["b", "a"]).primaryKey = ["b", "a"] := by cbv
  have hne : ∀ {t : Table} {x xs}, columnNames t.primaryKey = x :: xs → t.primaryKey ≠ [] := by
    intro t x xs h hnil
    rw [hnil] at h
    cases h
  have hverified : (ofCommands (keyCommands ["a", "b"])).verify = .ok () := by cbv
  have hplain : (ofCommands (keyCommands ["a", "b"])).uniqueIndexes = [] := by cbv
  refine ⟨?_, ?_, ?_⟩
  · rw [ne_eq, hcanonical _ _ (hne hjoined) (hne hordered) (by rw [hjoined]; decide) (by rw [hordered]; decide),
      hjoined, hordered]
    decide
  · have hc : (ofCommands (keyCommands ["a,b"])).verify = .ok () := by cbv
    obtain ⟨-, hplan⟩ := hdiff _ _ "pairs" (keyTable ["a,b"]) (keyTable ["a", "b"]) hc hverified rfl rfl
      (hne hjoined) (hne hordered)
    obtain ⟨p, hp, hlists⟩ := hplan Nat.repr false ⟨by simp, hc, hverified, hplain⟩
    rw [Table.keySet, Table.keySet, hjoined, hordered] at hlists
    exact ⟨p, hp, hlists.mpr (by decide)⟩
  · have hc : (ofCommands (keyCommands ["b", "a"])).verify = .ok () := by cbv
    obtain ⟨-, hplan⟩ := hdiff _ _ "pairs" (keyTable ["b", "a"]) (keyTable ["a", "b"]) hc hverified rfl rfl
      (hne hturned) (hne hordered)
    obtain ⟨p, hp, hlists⟩ := hplan Nat.repr false ⟨by simp, hc, hverified, hplain⟩
    rw [Table.keySet, Table.keySet, hturned, hordered] at hlists
    exact ⟨p, hp, fun h => hlists.mp h (by decide)⟩

/-! ## Unique constraints -/

/-- **What is seen of the unique constraints**: a plan gives `uniques` as a reason exactly if the words of
the constraints differ. This is to say that the constraints differ, as sets of sets of names, exactly if
no other constraints have the same words. -/
theorem diff_lists_uniques (suffixes : Nat → String) {current desired : Snapshot}
    {creationMode : Bool} (hc : current.Reachable) (hd : desired.Reachable)
    (h : current.Plannable desired creationMode) {name : String} {t d : Table}
    (ht : current.tables.get? name = some t) (hn : desired.tables.get? name = some d) :
    ∃ p, diff suffixes current desired creationMode = .ok p ∧
      (p.Lists name .uniques ↔ constraintWords t.uniqueSets ≠ constraintWords d.uniqueSets) ∧
      ((p.Lists name .uniques ↔ t.uniqueSets ≠ d.uniqueSets) ↔
        (constraintWords t.uniqueSets = constraintWords d.uniqueSets →
          t.uniqueSets = d.uniqueSets)) := by
  have htable : t.Sound := ((hc.sound h.verifiedCurrent).table name t ht).2
  have hdesired : d.Sound := ((hd.sound h.verifiedDesired).table name d hn).2
  have hlists : (plan suffixes current desired creationMode).Lists name .uniques ↔
      constraintWords t.uniqueSets ≠ constraintWords d.uniqueSets := by
    rw [plan_lists_iff ht hn, Table.uniques_mem_rebuildReasons_iff, ne_eq,
      Table.canonicalUniques_eq_iff htable hdesired]
  refine ⟨_, h.diff_eq suffixes, hlists, ?_⟩
  -- Equal sets have equal words, so it is only a change of the sets that can be missed.
  rw [hlists]
  constructor
  · intro hiff hwords
    by_contra hsets
    exact hiff.mpr hsets hwords
  · intro hseen
    exact ⟨fun hwords hsets => hwords (congrArg constraintWords hsets), fun hsets hwords =>
      hsets (hseen hwords)⟩

/-- A table over two columns with some unique constraints. -/
def pairCommands (constraints : List (List String)) : List Edit.Command :=
  [.createSnapshot, .createTable ⟨0⟩ "pairs",
    .createColumn ⟨0⟩ ⟨"a", "TEXT", false, none, false, false⟩,
    .createColumn ⟨0⟩ ⟨"b", "TEXT", false, none, false, false⟩] ++
  constraints.map fun names => .createUnique ⟨0⟩ (names.map .named)

def pairTable (constraints : List (List String)) : Table :=
  (Edit.Command.run .empty (pairCommands constraints)).table ⟨0⟩

theorem diff_lists_uniques_pairs :
    ∃ p, diff Nat.repr (ofCommands (pairCommands [["a"], ["b"]])) (ofCommands (pairCommands [["a"]]))
        false = .ok p ∧
      (p.Lists "pairs" .uniques ↔ constraintWords (pairTable [["a"], ["b"]]).uniqueSets ≠
        constraintWords (pairTable [["a"]]).uniqueSets) ∧
      ((p.Lists "pairs" .uniques ↔
          (pairTable [["a"], ["b"]]).uniqueSets ≠ (pairTable [["a"]]).uniqueSets) ↔
        (constraintWords (pairTable [["a"], ["b"]]).uniqueSets =
            constraintWords (pairTable [["a"]]).uniqueSets →
          (pairTable [["a"], ["b"]]).uniqueSets = (pairTable [["a"]]).uniqueSets)) := by
  have hplannable : Plannable (ofCommands (pairCommands [["a"], ["b"]]))
      (ofCommands (pairCommands [["a"]])) false := ⟨by simp, by cbv, by cbv, by cbv⟩
  exact diff_lists_uniques Nat.repr (reachable_ofCommands (by decide) (by decide))
    (reachable_ofCommands (by decide) (by decide)) hplannable rfl rfl

/-- Two constraints over a column each and one constraint over both columns have the same words, so
the plan between them does nothing. -/
theorem diff_misses_joined_uniques :
    (ofCommands (pairCommands [["a"], ["b"]])).Reachable ∧
      (ofCommands (pairCommands [["a", "b"]])).Reachable ∧
      (ofCommands (pairCommands [["a"], ["b"]])).tables.get? "pairs" =
        some (pairTable [["a"], ["b"]]) ∧
      (ofCommands (pairCommands [["a", "b"]])).tables.get? "pairs" =
        some (pairTable [["a", "b"]]) ∧
      (pairTable [["a"], ["b"]]).uniqueSets ≠ (pairTable [["a", "b"]]).uniqueSets ∧
      ∃ p, diff Nat.repr (ofCommands (pairCommands [["a"], ["b"]]))
          (ofCommands (pairCommands [["a", "b"]])) false = .ok p ∧
        ¬ p.Lists "pairs" .uniques ∧ p.operations = [] := by
  have hplannable : Plannable (ofCommands (pairCommands [["a"], ["b"]]))
      (ofCommands (pairCommands [["a", "b"]])) false := ⟨by simp, by cbv, by cbv, by cbv⟩
  refine ⟨reachable_ofCommands (by decide) (by decide), reachable_ofCommands (by decide) (by decide),
    rfl, rfl, by decide, _, hplannable.diff_eq Nat.repr, ?_, by cbv⟩
  have hforms : (pairTable [["a"], ["b"]]).canonicalUniques =
      (pairTable [["a", "b"]]).canonicalUniques := by cbv
  rw [plan_lists_iff rfl rfl, Table.uniques_mem_rebuildReasons_iff, not_not]
  exact hforms

/-! ## Foreign keys -/

/-- The outlines of the keys of a sound snapshot have columns on both sides. -/
theorem Sound.proper_outlines {s : Snapshot} (hs : s.Sound) {name : String} {t : Table}
    (ht : s.tables.get? name = some t)
    (hplain : ∀ r ∈ t.references, ForeignKey.Outline.Plain r.target) :
    ∀ o ∈ t.outlines, o.Proper := by
  intro o ho
  obtain ⟨f, hf, rfl⟩ := Table.mem_outlines.mp ho
  have hdistinct := hs.distinct ht hf
  obtain ⟨-, hverified, -⟩ := (hs.table name t ht).2.foreignKey f hf
  refine ⟨?_, ?_, hplain f.reading ?_⟩
  · show f.reading.pairs.image Prod.fst ≠ ∅
    rw [← hdistinct.toFinset_local]
    exact toFinset_columnNames_ne_empty hverified.local_ne_nil
  · show f.reading.pairs.image Prod.snd ≠ ∅
    rw [← hdistinct.toFinset_foreign]
    exact toFinset_columnNames_ne_empty hverified.foreign_ne_nil
  · rw [Table.references, List.mem_toFinset]
    exact List.mem_map_of_mem hf

/-- **What is seen of the foreign keys**: a plan gives `fks` as a reason exactly if the joined texts of the
outlines differ. This is to say that the foreign keys differ exactly if no other keys have the same
text. Where no target's name holds both a comma and a bar, what is seen is the outlines. -/
theorem diff_lists_foreignKeys (suffixes : Nat → String) {current desired : Snapshot}
    {creationMode : Bool} (hc : current.Reachable) (hd : desired.Reachable)
    (h : current.Plannable desired creationMode) {name : String} {t d : Table}
    (ht : current.tables.get? name = some t) (hn : desired.tables.get? name = some d) :
    ∃ p, diff suffixes current desired creationMode = .ok p ∧
      (p.Lists name .foreignKeys ↔ outlinesText t.outlines ≠ outlinesText d.outlines) ∧
      ((p.Lists name .foreignKeys ↔ t.references ≠ d.references) ↔
        (outlinesText t.outlines = outlinesText d.outlines → t.references = d.references)) ∧
      ((∀ r ∈ t.references ∪ d.references, ForeignKey.Outline.Plain r.target) →
        (p.Lists name .foreignKeys ↔ t.outlines ≠ d.outlines)) := by
  have hcs := hc.sound h.verifiedCurrent
  have hds := hd.sound h.verifiedDesired
  have hlists : (plan suffixes current desired creationMode).Lists name .foreignKeys ↔
      outlinesText t.outlines ≠ outlinesText d.outlines := by
    rw [plan_lists_iff ht hn, Table.foreignKeys_mem_rebuildReasons_iff, ne_eq,
      Table.canonicalForeignKeys_eq fun _ => hcs.distinct ht,
      Table.canonicalForeignKeys_eq fun _ => hds.distinct hn]
  refine ⟨_, h.diff_eq suffixes, hlists, ?_, ?_⟩
  · -- Equal keys have equal texts, so it is only a change of the keys that can be missed.
    rw [hlists]
    constructor
    · intro hiff htext
      by_contra hkeys
      exact hiff.mpr hkeys htext
    · intro hseen
      refine ⟨fun htext hkeys => htext ?_, fun hkeys htext => hkeys (hseen htext)⟩
      rw [Table.outlines, Table.outlines, hkeys]
  · intro hplain
    have htp := hcs.proper_outlines ht fun r hr => hplain r (Finset.mem_union_left _ hr)
    have hdp := hds.proper_outlines hn fun r hr => hplain r (Finset.mem_union_right _ hr)
    rw [hlists, ne_eq, outlinesText_inj htp hdp]

/-- Two tables of points over two coordinates each, where one refers to some coordinates of the
other. -/
def markCommands (target : List String) (onDelete : String) : List Edit.Command :=
  [.createSnapshot, .createTable ⟨0⟩ "points", .createTable ⟨0⟩ "marks",
    .createColumn ⟨0⟩ ⟨"x", "INTEGER", false, none, false, false⟩,
    .createColumn ⟨0⟩ ⟨"y", "INTEGER", false, none, false, false⟩,
    .createColumn ⟨1⟩ ⟨"a", "INTEGER", false, none, false, false⟩,
    .createColumn ⟨1⟩ ⟨"b", "INTEGER", false, none, false, false⟩,
    .createForeignKey ⟨1⟩ ⟨.named "points", [.named "a", .named "b"], target.map .named,
      "NO ACTION", onDelete⟩]

def markTable (target : List String) (onDelete : String) : Table :=
  (Edit.Command.run .empty (markCommands target onDelete)).table ⟨1⟩

theorem diff_lists_foreignKeys_marks :
    ∃ p, diff Nat.repr (ofCommands (markCommands ["x", "y"] "CASCADE"))
        (ofCommands (markCommands ["x", "y"] "NO ACTION")) false = .ok p ∧
      (p.Lists "marks" .foreignKeys ↔ outlinesText (markTable ["x", "y"] "CASCADE").outlines ≠
        outlinesText (markTable ["x", "y"] "NO ACTION").outlines) ∧
      ((p.Lists "marks" .foreignKeys ↔ (markTable ["x", "y"] "CASCADE").references ≠
          (markTable ["x", "y"] "NO ACTION").references) ↔
        (outlinesText (markTable ["x", "y"] "CASCADE").outlines =
            outlinesText (markTable ["x", "y"] "NO ACTION").outlines →
          (markTable ["x", "y"] "CASCADE").references =
            (markTable ["x", "y"] "NO ACTION").references)) ∧
      ((∀ r ∈ (markTable ["x", "y"] "CASCADE").references ∪
          (markTable ["x", "y"] "NO ACTION").references, ForeignKey.Outline.Plain r.target) →
        (p.Lists "marks" .foreignKeys ↔ (markTable ["x", "y"] "CASCADE").outlines ≠
          (markTable ["x", "y"] "NO ACTION").outlines)) := by
  have hplannable : Plannable (ofCommands (markCommands ["x", "y"] "CASCADE"))
      (ofCommands (markCommands ["x", "y"] "NO ACTION")) false := ⟨by simp, by cbv, by cbv, by cbv⟩
  exact diff_lists_foreignKeys Nat.repr (reachable_ofCommands (by decide) (by decide))
    (reachable_ofCommands (by decide) (by decide)) hplannable (by cbv) (by cbv)

/-- A key that refers to the same columns in another order has the same outline, so the plan between
them does nothing. -/
theorem diff_misses_exchanged_columns :
    (ofCommands (markCommands ["x", "y"] "NO ACTION")).Reachable ∧
      (ofCommands (markCommands ["y", "x"] "NO ACTION")).Reachable ∧
      (ofCommands (markCommands ["x", "y"] "NO ACTION")).tables.get? "marks" =
        some (markTable ["x", "y"] "NO ACTION") ∧
      (ofCommands (markCommands ["y", "x"] "NO ACTION")).tables.get? "marks" =
        some (markTable ["y", "x"] "NO ACTION") ∧
      (markTable ["x", "y"] "NO ACTION").references ≠
        (markTable ["y", "x"] "NO ACTION").references ∧
      ∃ p, diff Nat.repr (ofCommands (markCommands ["x", "y"] "NO ACTION"))
          (ofCommands (markCommands ["y", "x"] "NO ACTION")) false = .ok p ∧
        ¬ p.Lists "marks" .foreignKeys ∧ p.operations = [] := by
  have hplannable : Plannable (ofCommands (markCommands ["x", "y"] "NO ACTION"))
      (ofCommands (markCommands ["y", "x"] "NO ACTION")) false := ⟨by simp, by cbv, by cbv, by cbv⟩
  have hcurrent : (ofCommands (markCommands ["x", "y"] "NO ACTION")).tables.get? "marks" =
      some (markTable ["x", "y"] "NO ACTION") := by cbv
  have hdesired : (ofCommands (markCommands ["y", "x"] "NO ACTION")).tables.get? "marks" =
      some (markTable ["y", "x"] "NO ACTION") := by cbv
  refine ⟨reachable_ofCommands (by decide) (by decide), reachable_ofCommands (by decide) (by decide),
    hcurrent, hdesired, by decide +kernel, _, hplannable.diff_eq Nat.repr, ?_, by cbv⟩
  have hforms : (markTable ["x", "y"] "NO ACTION").canonicalForeignKeys =
      (markTable ["y", "x"] "NO ACTION").canonicalForeignKeys := by cbv
  rw [plan_lists_iff hcurrent hdesired, Table.foreignKeys_mem_rebuildReasons_iff, not_not]
  exact hforms

end Snapshot
end SchemaSync
