import SchemaSync.Proofs.Diff.Cascade
import SchemaSync.Proofs.Diff.Readiness
import SchemaSync.Proofs.Rows.Groups
import SchemaSync.Proofs.Sql.References

/-!
# Which references a table ends up with

A plan attaches a reference for every key over a single column of the tables that it makes, but each time
it replaces the whole definition of the column. So a column keeps the reference of the last key over it,
and so does a column of a table that is created with its references. A table has all its references
exactly if its keys over one column say the same (`Snapshot.diff_attaches_last_references`).
-/

namespace SchemaSync

open Sql (Carries Definitions Redefinition definitionIn definitionWith referenceOf?)

/-! ## The last key over a column -/

namespace ForeignKey

/-- What is written to attach the reference of a key over a single column. -/
def redefinition? (f : ForeignKey) : Option Redefinition := do
  let x ← f.singleColumn?
  let c ← f.clause?
  pure ⟨f.ownerName, x.name, definitionWith x [c]⟩

def isOver (f : ForeignKey) (name : String) : Bool := f.singleColumn?.map Column.name == some name

/-- The definition of the column that a key is over has the clause of the key. -/
def CarriedIn (f : ForeignKey) (definitionOf : String → Option String) : Prop :=
  ∃ x c text, f.singleColumn? = some x ∧ f.clause? = some c ∧ definitionOf x.name = some text ∧
    Carries text x c

theorem isOver_iff {f : ForeignKey} {name : String} :
    f.isOver name = true ↔ ∃ x, f.singleColumn? = some x ∧ x.name = name := by
  simp [isOver]

end ForeignKey

/-- The key whose reference a column is written with is the last one over it. -/
theorem Sql.referenceOf?_eq (t : Table) (x : Column) :
    referenceOf? t x = (t.foreignKeys.filter fun f => f.isOver x.name).getLast? := List.getLast?_filter.symm

namespace Table

variable {t : Table} {definitionOf : String → Option String}

def HasClauses (t : Table) : Prop :=
  ∀ f ∈ t.foreignKeys, f.isSingleColumn = true → ∃ c, f.clause? = some c

/-- Keys over one column say the same. -/
def AgreesOnReferences (t : Table) : Prop :=
  ∀ f ∈ t.foreignKeys, ∀ g ∈ t.foreignKeys, ∀ name, f.isOver name = true → g.isOver name = true →
    f.clause? = g.clause?

/-- Columns are written with the reference of the last key over them, and with no other. -/
structure RefersByLast (t : Table) (definitionOf : String → Option String) : Prop where
  carried_iff : ∀ f ∈ t.foreignKeys, ∀ x, f.singleColumn? = some x →
    (f.CarriedIn definitionOf ↔ (referenceOf? t x).bind ForeignKey.clause? = f.clause?)
  all_iff : (∀ f ∈ t.foreignKeys, f.isSingleColumn = true → f.CarriedIn definitionOf) ↔
    t.AgreesOnReferences

theorem HasClauses.carriedIn_iff (h : t.HasClauses)
    (hdefinition : ∀ f ∈ t.foreignKeys, ∀ x, f.singleColumn? = some x →
      definitionOf x.name = some (definitionIn t x))
    {f : ForeignKey} (hf : f ∈ t.foreignKeys) {x : Column} (hx : f.singleColumn? = some x) :
    f.CarriedIn definitionOf ↔ (referenceOf? t x).bind ForeignKey.clause? = f.clause? := by
  obtain ⟨c, hc⟩ := h f hf (ForeignKey.isSingleColumn_of_eq hx)
  have hcarries : Carries (definitionIn t x) x c ↔
      (referenceOf? t x).bind ForeignKey.clause? = some c := by
    unfold definitionIn
    rw [Sql.carries_definitionWith_iff, Option.mem_toList]
  rw [hc, ← hcarries]
  constructor
  · intro hcarried
    rcases hcarried with ⟨y, c', text, hy, hc', htext, hcarries⟩
    rw [hx] at hy
    rw [hc] at hc'
    cases hy
    cases hc'
    rw [hdefinition f hf x hx] at htext
    exact Option.some.inj htext ▸ hcarries
  · intro hcarries
    exact ⟨x, c, _, hx, hc, hdefinition f hf x hx, hcarries⟩

/-- It is enough to know the definitions of the columns that keys are over. -/
theorem HasClauses.refersByLast (h : t.HasClauses)
    (hdefinition : ∀ f ∈ t.foreignKeys, ∀ x, f.singleColumn? = some x →
      definitionOf x.name = some (definitionIn t x)) : t.RefersByLast definitionOf where
  carried_iff := fun f hf x hx => h.carriedIn_iff hdefinition hf hx
  all_iff := by
    constructor
    · intro hall f hf g hg name hfo hgo
      have hsay : ∀ k ∈ t.foreignKeys, k.isOver name = true →
          ((t.foreignKeys.filter fun f => f.isOver name).getLast?).bind ForeignKey.clause? =
            k.clause? := by
        intro k hk hover
        obtain ⟨x, hx, rfl⟩ := ForeignKey.isOver_iff.mp hover
        have hcarried := hall k hk (ForeignKey.isSingleColumn_of_eq hx)
        rw [← Sql.referenceOf?_eq]
        exact (h.carriedIn_iff hdefinition hk hx).mp hcarried
      exact (hsay f hf hfo).symm.trans (hsay g hg hgo)
    · intro hagree f hf hsingle
      obtain ⟨x, hx⟩ := Option.isSome_iff_exists.mp hsingle
      rw [h.carriedIn_iff hdefinition hf hx]
      have hover : f.isOver x.name = true := ForeignKey.isOver_iff.mpr ⟨x, hx, rfl⟩
      have hne : (t.foreignKeys.filter fun f => f.isOver x.name) ≠ [] :=
        List.ne_nil_of_mem (List.mem_filter.mpr ⟨hf, hover⟩)
      obtain ⟨hmem, hlast⟩ := List.mem_filter.mp (List.getLast_mem hne)
      rw [Sql.referenceOf?_eq, List.getLast?_eq_getLast_of_ne_nil hne, Option.bind_some]
      exact hagree _ hmem f hf x.name hlast hover

end Table

/-! ## The statements of a plan -/

section

variable {fs : List ForeignKey}

/-- Each key over a single column is attached by one statement. -/
theorem allStatements_attach
    (h : ∀ f ∈ fs, f.isSingleColumn = true → ∃ c, f.clause? = some c) :
    Operation.allStatements (fs.filterMap ForeignKey.attach?) =
      .ok ((fs.filterMap ForeignKey.redefinition?).map Redefinition.text) := by
  induction fs with
  | nil => rfl
  | cons f fs ih =>
    obtain ⟨hfirst, hrest⟩ := List.forall_mem_cons.mp h
    cases hsingle : f.singleColumn? with
    | none =>
      have hattach : f.attach? = none := by rw [ForeignKey.attach?, hsingle, Option.map_none]
      have hnone : f.redefinition? = none := by rw [ForeignKey.redefinition?, hsingle]; rfl
      rw [List.filterMap_cons_none hattach, List.filterMap_cons_none hnone]
      exact ih hrest
    | some x =>
      obtain ⟨c, hc⟩ := hfirst (ForeignKey.isSingleColumn_of_eq hsingle)
      have hattach : f.attach? = some (.addForeignKey f.ownerName x f) := by
        rw [ForeignKey.attach?, hsingle, Option.map_some]
      have hsome : f.redefinition? = some ⟨f.ownerName, x.name, definitionWith x [c]⟩ := by
        rw [ForeignKey.redefinition?, hsingle, hc]
        rfl
      have hstatements : (Operation.addForeignKey f.ownerName x f).statements =
          .ok [Redefinition.text ⟨f.ownerName, x.name, definitionWith x [c]⟩] := by
        rw [Redefinition.text, Sql.definitionWith_singleton, Operation.statements, Sql.addForeignKey,
          Sql.references_of_clause? hc]
        rfl
      rw [List.filterMap_cons_some hattach, List.filterMap_cons_some hsome, Operation.allStatements,
        hstatements, ih hrest]
      rfl

theorem getLast?_filterMap_of_forall {α β : Type} {f : α → Option β} {l : List α}
    (h : ∀ a ∈ l, (f a).isSome = true) : (l.filterMap f).getLast? = l.getLast?.bind f := by
  induction l using List.reverseRecOn with
  | nil => rfl
  | append_singleton l a _ =>
    obtain ⟨b, hb⟩ := Option.isSome_iff_exists.mp (h a (by simp))
    rw [List.filterMap_append, List.filterMap_cons_some hb, List.filterMap_nil,
      List.getLast?_concat, List.getLast?_concat, Option.bind_some, hb]

/-- After the statements of some keys a column has the definition that the last key of its table over
it asks for. -/
theorem get?_run_redefinitions {t : Table} {name : String} (hclauses : t.HasClauses)
    (howned : (fs.filter fun f => f.ownerName = name) = t.foreignKeys) (defs : Definitions)
    {f : ForeignKey} (hf : f ∈ t.foreignKeys) {x : Column} (hx : f.singleColumn? = some x)
    (hcolumn : ∀ g ∈ t.foreignKeys, ∀ y, g.singleColumn? = some y → y.name = x.name → y = x) :
    (defs.run ((fs.filterMap ForeignKey.redefinition?).map Redefinition.text)).get? (name, x.name) =
      some (definitionIn t x) := by
  have hover : f.isOver x.name = true := ForeignKey.isOver_iff.mpr ⟨x, hx, rfl⟩
  -- The statements about the column are those of the keys of the table over it.
  have hfilter : ((fs.filterMap ForeignKey.redefinition?).filter fun r =>
      (r.table, r.column) = (name, x.name)) =
        (t.foreignKeys.filter fun f => f.isOver x.name).filterMap ForeignKey.redefinition? := by
    rw [← howned, List.filter_filter, List.filterMap_filter, List.filter_filterMap]
    apply List.filterMap_congr
    intro g _
    unfold ForeignKey.redefinition? ForeignKey.isOver
    cases g.singleColumn? with
    | none => simp
    | some y =>
      cases g.clause? with
      | none => simp
      | some c =>
        by_cases hname : y.name = x.name <;> by_cases howner : g.ownerName = name <;>
          simp [Option.filter, hname, howner]
  have hsome : ∀ g ∈ t.foreignKeys.filter fun f => f.isOver x.name, g.redefinition?.isSome = true := by
    intro g hg
    obtain ⟨hmem, hgo⟩ := List.mem_filter.mp hg
    obtain ⟨y, hy, -⟩ := ForeignKey.isOver_iff.mp hgo
    obtain ⟨c, hc⟩ := hclauses g hmem (ForeignKey.isSingleColumn_of_eq hy)
    rw [ForeignKey.redefinition?, hy, hc]
    rfl
  have hne : (t.foreignKeys.filter fun f => f.isOver x.name) ≠ [] :=
    List.ne_nil_of_mem (List.mem_filter.mpr ⟨hf, hover⟩)
  obtain ⟨hmem, hgo⟩ := List.mem_filter.mp (List.getLast_mem hne)
  obtain ⟨y, hy, hname⟩ := ForeignKey.isOver_iff.mp hgo
  obtain rfl := hcolumn _ hmem y hy hname
  obtain ⟨c, hc⟩ := hclauses _ hmem (ForeignKey.isSingleColumn_of_eq hy)
  rw [Definitions.get?_run_text, hfilter, getLast?_filterMap_of_forall hsome, definitionIn,
    Sql.referenceOf?_eq, List.getLast?_eq_getLast_of_ne_nil hne, Option.bind_some, Option.bind_some,
    ForeignKey.redefinition?, hy, hc]
  rfl

end

namespace Snapshot

variable {current desired : Snapshot} {suffixes : Nat → String} {creationMode : Bool}
  {name : String} {t : Table}

theorem mem_allForeignKeys (ht : desired.tables.get? name = some t) {f : ForeignKey}
    (hf : f ∈ t.foreignKeys) : f ∈ desired.allForeignKeys :=
  List.mem_flatMap.mpr ⟨t, OrderedMap.mem_values_of_get? ht, hf⟩

theorem Sound.ownerName_eq (hs : desired.Sound) (ht : desired.tables.get? name = some t)
    {f : ForeignKey} (hf : f ∈ t.foreignKeys) : f.ownerName = name := by
  obtain ⟨hname, htable⟩ := hs.table name t ht
  exact (htable.foreignKey f hf).1.trans hname

/-- A key over a single column of a sound snapshot refers to a column. -/
theorem Sound.hasClauses (hs : desired.Sound) (ht : desired.tables.get? name = some t) :
    t.HasClauses := by
  intro f hf hsingle
  obtain ⟨x, hx⟩ := Option.isSome_iff_exists.mp hsingle
  obtain ⟨-, y, -, hforeign, -⟩ := hs.target_of_singleColumn (mem_allForeignKeys ht hf) hx
  refine ⟨⟨f.targetName, y.name, f.onDelete, f.onUpdate⟩, ?_⟩
  rw [ForeignKey.clause?, hforeign]
  rfl

theorem Sound.holds_of_singleColumn (hs : desired.Sound) (ht : desired.tables.get? name = some t)
    {f : ForeignKey} (hf : f ∈ t.foreignKeys) {x : Column} (hx : f.singleColumn? = some x) :
    t.columns.get? x.name = some x := by
  obtain ⟨u, hu, -, -, hheld⟩ := hs.owner_of_singleColumn (mem_allForeignKeys ht hf) hx
  rw [hs.ownerName_eq ht hf, ht] at hu
  cases hu
  exact hheld

/-- The keys of a snapshot that name a table are the keys of this table. -/
theorem filter_ownerName_allForeignKeys (hs : desired.Sound) (hd : desired.Verified)
    (ht : desired.tables.get? name = some t) :
    (desired.allForeignKeys.filter fun f => f.ownerName = name) = t.foreignKeys := by
  have hnames : (desired.tables.values.map Table.name).Nodup :=
    OrderedMap.nodup_map_values fun n u hu => (hd.table n u hu).2.1
  obtain ⟨rfl, -⟩ := hs.table name t ht
  refine Rows.filter_flatMap_rows hnames ?_ (OrderedMap.mem_values_of_get? ht)
  intro u hu f hf
  obtain ⟨n, hu⟩ := OrderedMap.mem_values_iff.mp hu
  exact ((hs.table n u hu).2.foreignKey f hf).1

/-- A table of a sound snapshot is created with the references of the last keys over its columns. -/
theorem Sound.createTable_refersByLast (hs : desired.Sound) (ht : desired.tables.get? name = some t) :
    Sql.createTable t true none = .ok (Sql.createTableOf t.name
      (t.columns.values.map (definitionIn t) ++ Sql.constraintRows t)) ∧
    t.RefersByLast fun column => (t.columns.get? column).map (definitionIn t) := by
  have hclauses := hs.hasClauses ht
  refine ⟨Sql.createTable_eq hclauses, hclauses.refersByLast ?_⟩
  intro f hf x hx
  rw [hs.holds_of_singleColumn ht hf hx, Option.map_some]

/-- The keys whose references a plan attaches: those of the tables that it touches or creates. -/
def attachedKeys (current desired : Snapshot) : List ForeignKey :=
  desired.allForeignKeys.filter fun f => f.ownerName ∈ affected current desired ∨
    current.tables.contains f.ownerName = false

/-- The statements of a plan that attach references. -/
theorem allStatements_referenceAdditions (hs : desired.Sound) (hd : desired.Verified) :
    Operation.allStatements
        ((operations suffixes current desired false).filter Operation.isReferenceAddition) =
      .ok (((attachedKeys current desired).filterMap ForeignKey.redefinition?).map
        Redefinition.text) := by
  have hadditions : (operations suffixes current desired false).filter Operation.isReferenceAddition =
      (attachedKeys current desired).filterMap ForeignKey.attach? := by
    rw [filter_isReferenceAddition_operations, if_neg Bool.false_ne_true]
    apply referenceAdditions_eq
    intro f hf
    rw [decide_eq_true_iff, mem_names_tablesWithout hs hd hf]
  rw [hadditions]
  apply allStatements_attach
  intro f hf hsingle
  obtain ⟨u, hu, hmem⟩ := hs.owner_of_foreignKey (List.mem_filter.mp hf).1
  exact hs.hasClauses hu f hmem hsingle

/-- A plan attaches the references of every key of a table that it makes. -/
theorem filter_ownerName_attachedKeys (hc : current.Verified) (hs : desired.Sound)
    (hd : desired.Verified) (ht : desired.tables.get? name = some t)
    (h : (plan suffixes current desired creationMode).Makes name) :
    ((attachedKeys current desired).filter fun f => f.ownerName = name) = t.foreignKeys := by
  unfold attachedKeys
  rw [List.filter_comm, filter_ownerName_allForeignKeys hs hd ht]
  apply List.filter_eq_self.mpr
  intro f hf
  refine decide_eq_true ?_
  rw [hs.ownerName_eq ht hf]
  rcases (makes_iff hc hd ht).mp h with hnew | hrebuilt
  · exact Or.inr (OrderedMap.contains_eq_false_iff.mpr hnew)
  · obtain ⟨r, hr⟩ := Option.ne_none_iff_exists'.mp hrebuilt
    exact Or.inl (mem_affected.mpr ⟨name, r, hr, Or.inl rfl⟩)

/-- **References**: the last key over a column decides. A table of a reachable snapshot that is verified, if
it is created with its references, has those of the last keys over its columns. Outside creation mode there
is a plan for the snapshot from every one that it can be planned from, and the references of its keys can be
written. Whatever the definitions were before, each table that the plan makes then has the references of the
last keys over its columns. So a table has all its references exactly if its keys over one column say the
same. -/
theorem diff_attaches_last_references (suffixes : Nat → String) {desired : Snapshot}
    (hd : desired.Reachable) (hv : desired.verify = .ok ()) :
    (∀ name t, desired.tables.get? name = some t →
      Sql.createTable t true none = .ok (Sql.createTableOf t.name
        (t.columns.values.map (definitionIn t) ++ Sql.constraintRows t)) ∧
      t.RefersByLast fun column => (t.columns.get? column).map (definitionIn t)) ∧
    ∀ current : Snapshot, current.Plannable desired false →
      ∃ p statements, diff suffixes current desired false = .ok p ∧
        Operation.allStatements (p.operations.filter Operation.isReferenceAddition) =
          .ok statements ∧
        ∀ name t, desired.tables.get? name = some t → p.Makes name → ∀ defs : Definitions,
          t.RefersByLast fun column => (defs.run statements).get? (name, column) := by
  have hdv := verify_eq_ok_iff.mp hv
  have hs := hd.sound hv
  refine ⟨fun name t ht => hs.createTable_refersByLast ht, fun current h => ?_⟩
  refine ⟨_, _, h.diff_eq suffixes, allStatements_referenceAdditions hs hdv, ?_⟩
  intro name t ht hmakes defs
  have hclauses := hs.hasClauses ht
  have howned := filter_ownerName_attachedKeys (verify_eq_ok_iff.mp h.verifiedCurrent) hs hdv ht hmakes
  refine hclauses.refersByLast fun f hf x hx => ?_
  refine get?_run_redefinitions hclauses howned defs hf hx fun g hg y hy hname => ?_
  -- A table has one column of a name.
  have hyheld := hs.holds_of_singleColumn ht hg hy
  have hxheld := hs.holds_of_singleColumn ht hf hx
  rw [hname, hxheld] at hyheld
  exact (Option.some.inj hyheld).symm

theorem diff_attaches_last_references_later :
    (ofCommands later).verify = .ok () ∧
      Plannable (ofCommands [.createSnapshot]) (ofCommands later) false ∧
      (∀ name t, (ofCommands later).tables.get? name = some t →
        Sql.createTable t true none = .ok (Sql.createTableOf t.name
          (t.columns.values.map (definitionIn t) ++ Sql.constraintRows t)) ∧
        t.RefersByLast fun column => (t.columns.get? column).map (definitionIn t)) ∧
      ∃ p statements, diff Nat.repr (ofCommands [.createSnapshot]) (ofCommands later) false = .ok p ∧
        Operation.allStatements (p.operations.filter Operation.isReferenceAddition) =
          .ok statements ∧
        ∀ name t, (ofCommands later).tables.get? name = some t → p.Makes name → ∀ defs : Definitions,
          t.RefersByLast fun column => (defs.run statements).get? (name, column) :=
  have hplannable : Plannable (ofCommands [.createSnapshot]) (ofCommands later) false :=
    ⟨by simp, by cbv, by cbv, by cbv⟩
  have hreferences := diff_attaches_last_references Nat.repr
    (reachable_ofCommands (by decide) (by decide)) hplannable.verifiedDesired
  ⟨hplannable.verifiedDesired, hplannable, hreferences.1, hreferences.2 _ hplannable⟩

def twofold : List Edit.Command :=
  [.createSnapshot, .createTable ⟨0⟩ "users", .createTable ⟨0⟩ "teams", .createTable ⟨0⟩ "items",
    .createColumn ⟨0⟩ (plainColumn "id" "INTEGER"), .createColumn ⟨1⟩ (plainColumn "id" "INTEGER"),
    .createColumn ⟨2⟩ (plainColumn "owner" "INTEGER"),
    .createForeignKey ⟨2⟩ ⟨.named "users", [.named "owner"], [.named "id"], "NO ACTION", "NO ACTION"⟩,
    .createForeignKey ⟨2⟩ ⟨.named "teams", [.named "owner"], [.named "id"], "NO ACTION", "NO ACTION"⟩]

def firstKey : ForeignKey := (Edit.Command.run .empty twofold).foreignKey ⟨0⟩

def twofoldStatements : List String :=
  ["ALTER TABLE `items` ALTER COLUMN `owner` TO `owner` INTEGER " ++
      "REFERENCES `users`(`id`) ON DELETE NO ACTION ON UPDATE NO ACTION",
    "ALTER TABLE `items` ALTER COLUMN `owner` TO `owner` INTEGER " ++
      "REFERENCES `teams`(`id`) ON DELETE NO ACTION ON UPDATE NO ACTION"]

theorem not_carriedIn_run_twofoldStatements (defs : Definitions) :
    ¬ firstKey.CarriedIn fun column => (defs.run twofoldStatements).get? ("items", column) := by
  let owner : Column := ⟨⟨2⟩, ⟨2⟩, "owner", .integer, false, none, false⟩
  have hkey : firstKey.singleColumn? = some owner ∧
      firstKey.clause? = some ⟨"users", "id", .noAction, .noAction⟩ := ⟨by cbv, by cbv⟩
  have hstatements : twofoldStatements = List.map Redefinition.text
      [⟨"items", "owner", definitionWith owner [⟨"users", "id", .noAction, .noAction⟩]⟩,
        ⟨"items", "owner", definitionWith owner [⟨"teams", "id", .noAction, .noAction⟩]⟩] := by
    decide +kernel
  have hlast : (defs.run twofoldStatements).get? ("items", "owner") =
      some (definitionWith owner [⟨"teams", "id", .noAction, .noAction⟩]) := by
    rw [hstatements, Definitions.get?_run_text]
    simp
  rintro ⟨x, c, text, hx, hc, htext, hcarries⟩
  rw [hkey.1] at hx
  rw [hkey.2] at hc
  cases hx
  cases hc
  have hsame : definitionWith owner [⟨"teams", "id", .noAction, .noAction⟩] = text :=
    Option.some.inj (hlast.symm.trans htext)
  rw [← hsame, Sql.carries_definitionWith_iff] at hcarries
  exact absurd hcarries (by decide)

/-- Of two keys over one column only the second one is written. -/
theorem diff_loses_first_reference :
    (ofCommands twofold).Reachable ∧
      Plannable (ofCommands [.createSnapshot]) (ofCommands twofold) false ∧
      ∃ p t, diff Nat.repr (ofCommands [.createSnapshot]) (ofCommands twofold) false = .ok p ∧
        Operation.allStatements (p.operations.filter Operation.isReferenceAddition) =
          .ok twofoldStatements ∧
        p.Makes "items" ∧ (ofCommands twofold).tables.get? "items" = some t ∧
        firstKey ∈ t.foreignKeys ∧ firstKey.isSingleColumn = true ∧
        (∀ defs : Definitions, ¬ firstKey.CarriedIn fun column =>
          (defs.run twofoldStatements).get? ("items", column)) ∧
        Sql.createTable t true none = .ok ("CREATE TABLE `items` (\n    `owner` INTEGER " ++
          "REFERENCES `teams`(`id`) ON DELETE NO ACTION ON UPDATE NO ACTION\n)") := by
  have hplannable : Plannable (ofCommands [.createSnapshot]) (ofCommands twofold) false :=
    ⟨by simp, by cbv, by cbv, by cbv⟩
  have hfound : (ofCommands twofold).tables.get? "items" =
      some ((Edit.Command.run .empty twofold).table ⟨2⟩) := by cbv
  have hmakes : (plan Nat.repr (ofCommands [.createSnapshot]) (ofCommands twofold) false).Makes "items" :=
    (makes_iff (verify_eq_ok_iff.mp hplannable.verifiedCurrent)
      (verify_eq_ok_iff.mp hplannable.verifiedDesired) hfound).mpr (Or.inl (by cbv))
  exact ⟨reachable_ofCommands (by decide) (by decide), hplannable, _, _, hplannable.diff_eq Nat.repr,
    by cbv, hmakes, hfound, by decide +kernel, by cbv, not_carriedIn_run_twofoldStatements, by cbv⟩

end Snapshot
end SchemaSync
