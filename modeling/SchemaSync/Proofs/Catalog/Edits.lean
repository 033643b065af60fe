import SchemaSync.Proofs.Catalog.Mutation
import SchemaSync.Proofs.Schema.Verified
import SchemaSync.Proofs.Simulation

/-!
# Edits as runs of mutations

An edit checks its rules and then changes the catalog. `Edit.Atomic` says this of one edit: it fails
and leaves the catalog as it was, or it succeeds by a run of mutations of some kind. Every edit is atomic
on a linked catalog, but for setting a whole primary key, which is a run of edits of its own. Only one
edit makes foreign keys; all others are runs of `Catalog.PlainMutation`.

`Edit.Command` is an edit as data, and `Catalog.Reachable` is what any finite run of commands makes
from the empty catalog, failing ones included. The main statement is that every reachable catalog is
linked: `Catalog.Reachable.linked`.
-/

namespace SchemaSync

open Catalog

variable {c d : Catalog}

/-- The entry of a column that is made of a type on a table. The default `NULL` counts as none. -/
def ColumnSpec.entry (spec : ColumnSpec) (t : TableId) (type : ColumnType) : ColumnEntry :=
  ⟨t, spec.name, type, spec.notNull, if spec.default = some "NULL" then none else spec.default,
    spec.autoIncrement⟩

theorem ColumnSpec.default_entry_ne (spec : ColumnSpec) (t : TableId) (type : ColumnType) :
    (spec.entry t type).default ≠ some "NULL" := by
  unfold entry
  split <;> simp_all

/-! ## References -/

def ColumnRef.Issued (c : Catalog) : ColumnRef → Prop
  | .named _ => True
  | .handle id => c.columns.Issued id

instance (c : Catalog) : (r : ColumnRef) → Decidable (r.Issued c)
  | .named _ => inferInstanceAs (Decidable True)
  | .handle id => inferInstanceAs (Decidable (c.columns.Issued id))

theorem ColumnRef.Issued.mono (h : Mutations c d) {r : ColumnRef} (hr : r.Issued c) :
    r.Issued d := by
  cases r with
  | named name => trivial
  | handle id => exact h.issued_column hr

def TableRef.Issued (c : Catalog) : TableRef → Prop
  | .named _ => True
  | .handle t => c.tables.Issued t

instance (c : Catalog) : (r : TableRef) → Decidable (r.Issued c)
  | .named _ => inferInstanceAs (Decidable True)
  | .handle t => inferInstanceAs (Decidable (c.tables.Issued t))

namespace Edit

variable {α β : Type}

/-! ## Outcomes -/

/-- The result of an edit on a catalog, and the catalog that it leaves. -/
def outcome (e : Edit α) (c : Catalog) : Except EditError α × Catalog := (ExceptT.run e).run c

@[simp] theorem outcome_pure (a : α) (c : Catalog) : outcome (pure a) c = (.ok a, c) := rfl

@[simp] theorem outcome_throw (x : EditError) (c : Catalog) :
    outcome (throw x : Edit α) c = (.error x, c) := rfl

@[simp] theorem outcome_get (c : Catalog) : outcome get c = (.ok c, c) := rfl

@[simp] theorem outcome_set (c d : Catalog) : outcome (set d) c = (.ok (), d) := rfl

@[simp] theorem outcome_violate (v : Violation) (c : Catalog) :
    outcome (violate v : Edit α) c = (.error (.violation v), c) := rfl

theorem outcome_bind (e : Edit α) (f : α → Edit β) (c : Catalog) :
    outcome (e >>= f) c = match outcome e c with
      | (.ok a, d) => outcome (f a) d
      | (.error x, d) => (.error x, d) := by
  show outcomeOf (e >>= f) c = _
  rw [outcomeOf_bind, outcome, outcomeOf]
  rcases e.run.run c with ⟨x | a, d⟩ <;> rfl

/-- An edit that only looks at the catalog, and finds nothing but what satisfies `P`. -/
def Reads (e : Edit α) (c : Catalog) (P : α → Prop) : Prop :=
  ∃ r, outcome e c = (r, c) ∧ ∀ a, r = .ok a → P a

variable {R : Catalog → Catalog → Prop}

/-- An edit that fails and leaves the catalog as it was, or succeeds by a run of changes of the
kind `R`. -/
def Atomic (R : Catalog → Catalog → Prop) (e : Edit α) (c : Catalog) : Prop :=
  (∃ x, outcome e c = (.error x, c)) ∨
    ∃ a d, outcome e c = (.ok a, d) ∧ Relation.ReflTransGen R c d

/-- An edit that changes the catalog by a run of changes of the kind `R`, whether it fails or not. -/
def Steps (R : Catalog → Catalog → Prop) (e : Edit α) (c : Catalog) : Prop :=
  Relation.ReflTransGen R c (outcome e c).2

theorem Atomic.steps {e : Edit α} (h : Atomic R e c) : Steps R e c := by
  rcases h with ⟨x, h⟩ | ⟨a, d, h, hd⟩
  · rw [Steps, h]
  · rw [Steps, h]
    exact hd

theorem Reads.pure {P : α → Prop} {a : α} (h : P a) : Reads (pure a) c P := by
  refine ⟨.ok a, rfl, ?_⟩
  rintro b ⟨⟩
  exact h

theorem Reads.throw {P : α → Prop} (x : EditError) : Reads (throw x : Edit α) c P := by
  refine ⟨.error x, rfl, ?_⟩
  rintro b ⟨⟩

theorem Reads.bind {P : α → Prop} {Q : β → Prop} {e : Edit α} {f : α → Edit β}
    (he : Reads e c P) (hf : ∀ a, P a → Reads (f a) c Q) : Reads (e >>= f) c Q := by
  obtain ⟨r, hr, hP⟩ := he
  cases r with
  | error x =>
      refine ⟨.error x, by rw [outcome_bind, hr], ?_⟩
      rintro b ⟨⟩
  | ok a =>
      obtain ⟨s, hs, hQ⟩ := hf a (hP a rfl)
      exact ⟨s, by rw [outcome_bind, hr, ← hs], hQ⟩

theorem Reads.atomic_bind {P : α → Prop} {e : Edit α} {f : α → Edit β} (he : Reads e c P)
    (hf : ∀ a, P a → Atomic R (f a) c) : Atomic R (e >>= f) c := by
  obtain ⟨r, hr, hP⟩ := he
  cases r with
  | error x => exact Or.inl ⟨x, by rw [outcome_bind, hr]⟩
  | ok a =>
      rcases hf a (hP a rfl) with ⟨x, hx⟩ | ⟨b, d, hb, hd⟩
      · exact Or.inl ⟨x, by rw [outcome_bind, hr, ← hx]⟩
      · exact Or.inr ⟨b, d, by rw [outcome_bind, hr, ← hb], hd⟩

/-- Looking at the catalog first. -/
theorem Reads.get_bind {P : α → Prop} {f : Catalog → Edit α} (h : Reads (f c) c P) :
    Reads (get >>= f) c P := h

theorem Atomic.get_bind {f : Catalog → Edit α} (h : Atomic R (f c) c) : Atomic R (get >>= f) c := h

theorem atomic_violate (v : Violation) : Atomic R (violate v : Edit α) c := Or.inl ⟨_, rfl⟩

theorem atomic_pure (a : α) : Atomic R (pure a) c := Or.inr ⟨a, c, rfl, .refl⟩

/-- Writing a changed catalog and handing back a value. -/
theorem atomic_set {a : α} (h : R c d) : Atomic R (do set d; pure a) c :=
  Or.inr ⟨a, d, rfl, .single h⟩

/-- A rule checked in front of an edit. -/
theorem Atomic.unless {p : Prop} [Decidable p] {v : Violation} {e : Edit α}
    (h : ¬ p → Atomic R e c) :
    Atomic R (do
      if p then violate v
      e) c := by
  by_cases hp : p
  · simp only [if_pos hp]
    exact Or.inl ⟨_, rfl⟩
  · simp only [if_neg hp]
    exact h hp

theorem reads_check {r : Except Violation Unit} : Reads (check r) c fun _ => r = .ok () := by
  cases r with
  | error v => exact Reads.throw _
  | ok u => exact Reads.pure rfl

/-! ## What edits look up -/

theorem reads_columnType (text : String) :
    Reads (columnType text) c fun type => ColumnType.ofKeyword? text = some type := by
  rw [columnType]
  cases ColumnType.ofKeyword? text with
  | none => exact Reads.throw _
  | some type => exact Reads.pure rfl

theorem reads_action (text : String) : Reads (action text) c fun a => Action.ofKeyword? text = some a := by
  rw [action]
  cases Action.ofKeyword? text with
  | none => exact Reads.throw _
  | some a => exact Reads.pure rfl

theorem reads_getTable (s : SnapshotId) (name : String) :
    Reads (getTable s name) c fun t => c.findTable? s name = some t := by
  apply Reads.get_bind
  cases h : c.findTable? s name with
  | none => exact Reads.throw _
  | some t => exact Reads.pure rfl

theorem reads_getColumn (t : TableId) (name : String) :
    Reads (getColumn t name) c fun id => c.findColumn? t name = some id := by
  apply Reads.get_bind
  cases h : c.findColumn? t name with
  | none => exact Reads.throw _
  | some id => exact Reads.pure rfl

theorem reads_resolveColumn (hl : c.Linked) (t : TableId) {r : ColumnRef}
    (hr : r.Issued c) : Reads (resolveColumn t r) c c.columns.Issued := by
  cases r with
  | named name =>
      obtain ⟨r, houtcome, hfind⟩ := reads_getColumn (c := c) t name
      exact ⟨r, houtcome, fun id hid => (hl.column t name id (hfind id hid)).1⟩
  | handle id => exact Reads.pure hr

theorem reads_resolveColumns (hl : c.Linked) (t : TableId) :
    ∀ {rs : List ColumnRef}, (∀ r ∈ rs, r.Issued c) →
      Reads (resolveColumns t rs) c fun ids => ∀ id ∈ ids, c.columns.Issued id
  | [], _ => Reads.pure (by simp)
  | r :: rs, hrs => by
    refine (reads_resolveColumn hl t (hrs r (by simp))).bind fun id hid => ?_
    refine (reads_resolveColumns hl t fun q hq => hrs q (by simp [hq])).bind fun ids hids => ?_
    exact Reads.pure (List.forall_mem_cons.mpr ⟨hid, hids⟩)

theorem reads_resolveTable (hl : c.Linked) (t : TableId) {r : TableRef} (hr : r.Issued c) :
    Reads (resolveTable t r) c c.tables.Issued := by
  cases r with
  | named name =>
      apply Reads.get_bind
      obtain ⟨r, houtcome, hfind⟩ := reads_getTable (c.tables.get t).schema name
      exact ⟨r, houtcome, fun u hu => (hl.table _ name u (hfind u hu)).1⟩
  | handle u => exact Reads.pure hr

/-! ## Single edits -/

theorem atomic_createSnapshot : Atomic PlainMutation createSnapshot c :=
  Atomic.get_bind (atomic_set ⟨.snapshot, rfl⟩)

theorem atomic_createTable {s : SnapshotId} (hs : c.snapshots.Issued s) (name : String) :
    Atomic PlainMutation (createTable s name) c := by
  apply Atomic.get_bind
  refine Atomic.unless fun hfree => atomic_set ⟨.table hs ?_, rfl⟩
  simpa using hfree

theorem atomic_renameTable (s : SnapshotId) (old new : String) : Atomic PlainMutation (renameTable s old new) c := by
  refine (reads_getTable s old).atomic_bind fun t hold => ?_
  by_cases hsame : new = old
  · simp only [if_pos hsame]
    exact atomic_pure ()
  · simp only [if_neg hsame]
    apply Atomic.get_bind
    refine Atomic.unless fun hfree => Or.inr ⟨(), _, rfl, .single ⟨.tableName hold ?_, rfl⟩⟩
    simpa using hfree

theorem atomic_removeTable (s : SnapshotId) (name : String) : Atomic PlainMutation (removeTable s name) c := by
  refine (reads_getTable s name).atomic_bind fun t hname => ?_
  apply Atomic.get_bind
  refine Atomic.unless fun hunused => ?_
  cases hkey : c.findTable? s (c.tableName t) with
  | none => exact Or.inl ⟨_, rfl⟩
  | some u => exact Or.inr ⟨(), _, rfl, .single ⟨.noTable hname (by simpa using hunused), rfl⟩⟩

theorem atomic_renameColumn (t : TableId) (old new : String) : Atomic PlainMutation (renameColumn t old new) c := by
  refine (reads_getColumn t old).atomic_bind fun id hold => ?_
  by_cases hsame : new = old
  · simp only [if_pos hsame]
    exact atomic_pure ()
  · simp only [if_neg hsame]
    apply Atomic.get_bind
    refine Atomic.unless fun hfree => Or.inr ⟨(), _, rfl, .single ⟨.columnName hold ?_, rfl⟩⟩
    simpa using hfree

theorem atomic_rename (id : ColumnId) (new : String) : Atomic PlainMutation (rename id new) c := by
  apply Atomic.get_bind
  exact atomic_renameColumn _ _ new

theorem atomic_setPrimaryKeyColumn (hl : c.Linked) {t : TableId} (ht : c.tables.Issued t)
    {r : ColumnRef} (hr : r.Issued c) (slot : Int) :
    Atomic PlainMutation (setPrimaryKeyColumn t r slot) c := by
  refine (reads_resolveColumn hl t hr).atomic_bind fun id hid => ?_
  apply Atomic.get_bind
  refine Atomic.unless fun hpos => ?_
  refine Atomic.unless fun hfree => ?_
  refine Atomic.unless fun howner => ?_
  refine Atomic.unless fun hnew => ?_
  exact Or.inr ⟨(), _, rfl, .single ⟨.slot ht hid (by omega) (by simpa using hfree)
    (by simpa using howner) (by simpa using hnew), rfl⟩⟩

theorem atomic_createUnique (hl : c.Linked) {t : TableId} (ht : c.tables.Issued t)
    {rs : List ColumnRef} (hrs : ∀ r ∈ rs, r.Issued c) : Atomic PlainMutation (createUnique t rs) c := by
  refine (reads_resolveColumns hl t hrs).atomic_bind fun ids hids => ?_
  apply Atomic.get_bind
  refine reads_check.atomic_bind fun _ hok => ?_
  refine Atomic.unless fun hnew => atomic_set ⟨.unique ⟨t, ids⟩ ht hids hok ?_, rfl⟩
  simpa using hnew

theorem atomic_createIndex (hl : c.Linked) {t : TableId} (ht : c.tables.Issued t) (name : String)
    {rs : List ColumnRef} (hrs : ∀ r ∈ rs, r.Issued c) (unique : Bool) :
    Atomic PlainMutation (createIndex t name rs unique) c := by
  apply Atomic.get_bind
  cases hfree : c.findIndex? (c.tables.get t).schema name with
  | some other => exact atomic_violate _
  | none =>
      refine (reads_resolveColumns hl t hrs).atomic_bind fun ids hids => ?_
      refine reads_check.atomic_bind fun _ hok => ?_
      exact atomic_set ⟨.index ⟨t, name, ids, unique⟩ ht hids hfree hok, rfl⟩

/-- What is found for the target decides of which kind the one change is. -/
theorem atomic_createForeignKey (hl : c.Linked) {t : TableId} (ht : c.tables.Issued t)
    {spec : ForeignKeySpec} {P : TableId → Prop} (htarget : Reads (resolveTable t spec.target) c P)
    (hissued : ∀ u, P u → c.tables.Issued u) (hlocal : ∀ r ∈ spec.localColumns, r.Issued c)
    (hforeign : ∀ r ∈ spec.foreignColumns, r.Issued c)
    (hR : ∀ entry : ForeignKeyEntry, P entry.target → Mutation c (c.addForeignKey entry) →
      R c (c.addForeignKey entry)) : Atomic R (createForeignKey t spec) c := by
  refine htarget.atomic_bind fun u hu => ?_
  apply Atomic.get_bind
  refine Atomic.unless fun hschema => ?_
  refine (reads_resolveColumns hl t hlocal).atomic_bind fun localIds hlocalIds => ?_
  refine (reads_resolveColumns hl u hforeign).atomic_bind fun foreignIds hforeignIds => ?_
  refine (reads_action spec.onUpdate).atomic_bind fun onUpdate _ => ?_
  refine (reads_action spec.onDelete).atomic_bind fun onDelete _ => ?_
  refine reads_check.atomic_bind fun _ hok => ?_
  exact atomic_set (hR ⟨t, u, localIds, foreignIds, onUpdate, onDelete⟩ hu
    (.foreignKey ⟨t, u, localIds, foreignIds, onUpdate, onDelete⟩ ht (hissued u hu)
      (by simpa using hschema) hlocalIds hforeignIds hok))

/-- A unique constraint over a column that no constraint mentions yet is always made. -/
theorem outcome_createUnique_single (hl : c.Linked) {t : TableId} {name : String} {id : ColumnId}
    (hfind : c.findColumn? t name = some id) (hnew : ∀ u, id ∉ (c.uniques.get u).columns) :
    outcome (createUnique t [.named name]) c = (.ok c.uniques.next, c.addUnique ⟨t, [id]⟩) ∧
      Mutation c (c.addUnique ⟨t, [id]⟩) := by
  obtain ⟨hid, howner, -⟩ := hl.column t name id hfind
  have hok : (c.resolveUnique c.uniques.next ⟨t, [id]⟩).verify = .ok () := by
    rw [Unique.verify, firstOf_eq_ok_iff, Unique.violations_eq_nil_iff]
    exact ⟨by simpa [resolveUnique, column] using howner, by simp [resolveUnique]⟩
  have hother : ∀ u, (c.uniques.get u).columns ≠ [id] := fun u h => hnew u (by simp [h])
  constructor
  · simp [createUnique, resolveColumns, resolveColumn, getColumn, outcome_bind, hfind, hok, check,
      hother]
    rfl
  · exact .unique ⟨t, [id]⟩ (issued_of_findColumn? hfind) (by simpa using hid) hok
      fun u _ => hother u

/-- A column is made under a free name and with a keyword for its type, together with a constraint over it
alone if it is to be unique; otherwise nothing changes. -/
theorem createColumn_cases (hl : c.Linked) {t : TableId} (ht : c.tables.Issued t) (spec : ColumnSpec) :
    (∃ x, outcome (createColumn t spec) c = (.error x, c)) ∨
      ∃ type d, ColumnType.ofKeyword? spec.type = some type ∧
        outcome (createColumn t spec) c = (.ok c.columns.next, d) ∧
        Relation.ReflTransGen PlainMutation c d ∧ d.columns = c.columns.add (spec.entry t type) := by
  cases hfree : c.findColumn? t spec.name with
  | some other => exact Or.inl ⟨_, by simp [createColumn, outcome_bind, hfree]; rfl⟩
  | none =>
  cases htype : ColumnType.ofKeyword? spec.type with
  | none => exact Or.inl ⟨_, by simp [createColumn, columnType, outcome_bind, hfree, htype]; rfl⟩
  | some type =>
  have hmade : Mutation c (c.addColumn (spec.entry t type)) :=
    .column (spec.entry t type) ht hfree (spec.default_entry_ne t type)
  cases hunique : spec.unique with
  | false =>
      refine Or.inr ⟨type, c.addColumn (spec.entry t type), rfl, ?_, .single ⟨hmade, rfl⟩, rfl⟩
      simp [createColumn, columnType, outcome_bind, hfree, htype, hunique]
      rfl
  | true =>
      have htable : c.tables.Issued (spec.entry t type).owner := ht
      have hfind : (c.addColumn (spec.entry t type)).findColumn? t spec.name = some c.columns.next :=
        findColumn?_addColumn_self htable
      -- The constraints of the catalog were made before the column.
      have hnew : ∀ u, c.columns.next ∉ ((c.addColumn (spec.entry t type)).uniques.get u).columns :=
        fun u hmem => (hl.unique u _ hmem).ne_next rfl
      obtain ⟨houtcome, hchange⟩ := outcome_createUnique_single (hmade.linked hl) hfind hnew
      refine Or.inr ⟨type, _, rfl, ?_, .tail (.single ⟨hmade, rfl⟩) ⟨hchange, rfl⟩, rfl⟩
      have hsteps : outcome (createColumn t spec) c = outcome (do
          let _ ← createUnique t [.named spec.name]
          pure c.columns.next) (c.addColumn (spec.entry t type)) := by
        simp [createColumn, columnType, outcome_bind, hfree, htype, hunique]
        rfl
      rw [hsteps, outcome_bind, houtcome]
      rfl

theorem atomic_createColumn (hl : c.Linked) {t : TableId} (ht : c.tables.Issued t)
    (spec : ColumnSpec) : Atomic PlainMutation (createColumn t spec) c := by
  rcases createColumn_cases hl ht spec with hfailed | ⟨-, d, -, hmade, hsteps, -⟩
  · exact Or.inl hfailed
  · exact Or.inr ⟨_, d, hmade, hsteps⟩

/-- The default that a new column has. -/
theorem default_of_createColumn (hl : c.Linked) {t : TableId} (ht : c.tables.Issued t) {spec : ColumnSpec}
    {id : ColumnId} (hok : outcome (createColumn t spec) c = (.ok id, d)) :
    (d.column id).default = if spec.default = some "NULL" then none else spec.default := by
  rcases createColumn_cases hl ht spec with ⟨x, hfailed⟩ | ⟨type, d', -, hmade, -, hcolumns⟩
  · rw [hfailed] at hok
    cases hok
  · obtain ⟨⟨⟩, rfl⟩ := Prod.mk.inj (hmade.symm.trans hok)
    show (d'.columns.get c.columns.next).default = _
    rw [hcolumns, Store.get_add_next]
    rfl

theorem steps_setPrimaryKeyFrom {t : TableId} : ∀ {rs : List ColumnRef} {c : Catalog} (slot : Int),
    c.Linked → c.tables.Issued t → (∀ r ∈ rs, r.Issued c) →
      Steps PlainMutation (setPrimaryKeyFrom t slot rs) c
  | [], _, _, _, _, _ => .refl
  | r :: rs, c, slot, hl, ht, hrs => by
    have hbind : outcome (setPrimaryKeyFrom t slot (r :: rs)) c =
        outcome (setPrimaryKeyColumn t r slot >>= fun _ => setPrimaryKeyFrom t (slot + 1) rs) c :=
      rfl
    rw [Steps, hbind, outcome_bind]
    rcases atomic_setPrimaryKeyColumn hl ht (hrs r (by simp)) slot with ⟨x, hx⟩ | ⟨a, d, hd, hsteps⟩
    · rw [hx]
    · rw [hd]
      have hmutations := PlainMutations.mutations hsteps
      refine hsteps.trans (steps_setPrimaryKeyFrom (slot + 1) (hmutations.linked hl)
        (hmutations.issued_table ht) fun q hq => ?_)
      exact ColumnRef.Issued.mono hmutations (hrs q (by simp [hq]))

/-! ## Commands -/

/-- An edit as data. -/
inductive Command where
  | createSnapshot
  | createTable (s : SnapshotId) (name : String)
  | renameTable (s : SnapshotId) (old new : String)
  | removeTable (s : SnapshotId) (name : String)
  | createColumn (t : TableId) (spec : ColumnSpec)
  | renameColumn (t : TableId) (old new : String)
  | rename (id : ColumnId) (new : String)
  | setPrimaryKeyColumn (t : TableId) (column : ColumnRef) (slot : Int)
  | setPrimaryKey (t : TableId) (columns : List ColumnRef)
  | createIndex (t : TableId) (name : String) (columns : List ColumnRef) (unique : Bool)
  | createUnique (t : TableId) (columns : List ColumnRef)
  | createForeignKey (t : TableId) (spec : ForeignKeySpec)

namespace Command

/-- The result of a command, without the handle of what it made, and the catalog that it leaves. -/
def outcome (c : Catalog) : Command → Except EditError Unit × Catalog
  | createSnapshot => done (Edit.outcome Edit.createSnapshot c)
  | createTable s name => done (Edit.outcome (Edit.createTable s name) c)
  | renameTable s old new => Edit.outcome (Edit.renameTable s old new) c
  | removeTable s name => Edit.outcome (Edit.removeTable s name) c
  | createColumn t spec => done (Edit.outcome (Edit.createColumn t spec) c)
  | renameColumn t old new => Edit.outcome (Edit.renameColumn t old new) c
  | rename id new => Edit.outcome (Edit.rename id new) c
  | setPrimaryKeyColumn t column slot => Edit.outcome (Edit.setPrimaryKeyColumn t column slot) c
  | setPrimaryKey t columns => Edit.outcome (Edit.setPrimaryKey t columns) c
  | createIndex t name columns unique =>
    done (Edit.outcome (Edit.createIndex t name columns unique) c)
  | createUnique t columns => done (Edit.outcome (Edit.createUnique t columns) c)
  | createForeignKey t spec => done (Edit.outcome (Edit.createForeignKey t spec) c)
where
  /-- Forget the handle of what was made. -/
  done {α : Type} (o : Except EditError α × Catalog) : Except EditError Unit × Catalog :=
    (o.1.map fun _ => (), o.2)

/-- Every handle that a command mentions has been given out. -/
def Issued (c : Catalog) : Command → Prop
  | createSnapshot => True
  | createTable s _ | renameTable s _ _ | removeTable s _ => c.snapshots.Issued s
  | createColumn t _ | renameColumn t _ _ => c.tables.Issued t
  | rename id _ => c.columns.Issued id
  | setPrimaryKeyColumn t column _ => c.tables.Issued t ∧ column.Issued c
  | setPrimaryKey t columns | createIndex t _ columns _ | createUnique t columns =>
    c.tables.Issued t ∧ ∀ r ∈ columns, r.Issued c
  | createForeignKey t spec =>
    c.tables.Issued t ∧ spec.target.Issued c ∧
      (∀ r ∈ spec.localColumns, r.Issued c) ∧
      ∀ r ∈ spec.foreignColumns, r.Issued c

instance (c : Catalog) : (k : Command) → Decidable (k.Issued c)
  | createSnapshot => inferInstanceAs (Decidable True)
  | createTable s _ | renameTable s _ _ | removeTable s _ =>
    inferInstanceAs (Decidable (c.snapshots.Issued s))
  | createColumn t _ | renameColumn t _ _ => inferInstanceAs (Decidable (c.tables.Issued t))
  | rename id _ => inferInstanceAs (Decidable (c.columns.Issued id))
  | setPrimaryKeyColumn t column _ =>
    inferInstanceAs (Decidable (c.tables.Issued t ∧ column.Issued c))
  | setPrimaryKey t columns | createIndex t _ columns _ | createUnique t columns =>
    inferInstanceAs (Decidable (c.tables.Issued t ∧ ∀ r ∈ columns, r.Issued c))
  | createForeignKey t spec =>
    inferInstanceAs (Decidable (c.tables.Issued t ∧ spec.target.Issued c ∧
      (∀ r ∈ spec.localColumns, r.Issued c) ∧ ∀ r ∈ spec.foreignColumns, r.Issued c))

def run (c : Catalog) : List Command → Catalog
  | [] => c
  | k :: ks => run (k.outcome c).2 ks

/-- Every command of a list mentions only handles that have been given out before it. -/
def AllIssued (c : Catalog) : List Command → Prop
  | [] => True
  | k :: ks => k.Issued c ∧ AllIssued (k.outcome c).2 ks

instance decidableAllIssued (c : Catalog) : (ks : List Command) → Decidable (AllIssued c ks)
  | [] => inferInstanceAs (Decidable True)
  | k :: ks =>
    have : Decidable (AllIssued (k.outcome c).2 ks) := decidableAllIssued (k.outcome c).2 ks
    inferInstanceAs (Decidable (k.Issued c ∧ AllIssued (k.outcome c).2 ks))

/-- A command that is not about a foreign key changes the catalog by a run of mutations that make
none, whether it fails or not. -/
theorem plainMutations_outcome (hl : c.Linked) {k : Command} (hk : k.Issued c)
    (hnot : ∀ t spec, k ≠ createForeignKey t spec) : PlainMutations c (k.outcome c).2 := by
  cases k with
  | createSnapshot => exact atomic_createSnapshot.steps
  | createTable s name => exact (atomic_createTable hk name).steps
  | renameTable s old new => exact (atomic_renameTable s old new).steps
  | removeTable s name => exact (atomic_removeTable s name).steps
  | createColumn t spec => exact (atomic_createColumn hl hk spec).steps
  | renameColumn t old new => exact (atomic_renameColumn t old new).steps
  | rename id new => exact (atomic_rename id new).steps
  | setPrimaryKeyColumn t column slot =>
      exact (atomic_setPrimaryKeyColumn hl hk.1 hk.2 slot).steps
  | setPrimaryKey t columns => exact steps_setPrimaryKeyFrom 1 hl hk.1 hk.2
  | createIndex t name columns unique => exact (atomic_createIndex hl hk.1 name hk.2 unique).steps
  | createUnique t columns => exact (atomic_createUnique hl hk.1 hk.2).steps
  | createForeignKey t spec => exact absurd rfl (hnot t spec)

/-- A command changes the catalog by a run of mutations, whether it fails or not. -/
theorem mutations_outcome (hl : c.Linked) {k : Command} (hk : k.Issued c) :
    Mutations c (k.outcome c).2 := by
  by_cases hkey : ∃ t spec, k = createForeignKey t spec
  · obtain ⟨t, spec, rfl⟩ := hkey
    obtain ⟨ht, htarget, hlocal, hforeign⟩ := hk
    exact (atomic_createForeignKey hl ht (reads_resolveTable hl t htarget) (fun _ hu => hu) hlocal
      hforeign fun _ _ hmade => hmade).steps
  · exact (plainMutations_outcome hl hk fun t spec h => hkey ⟨t, spec, h⟩).mutations

end Command
end Edit

/-! ## Runs -/

namespace Catalog

/-- What a finite run of commands makes from the empty catalog. Commands may fail, and a handle may
be used as long as it has been given out, also for a table that its snapshot no longer holds. -/
inductive Reachable : Catalog → Prop
  | empty : Reachable empty
  | edit {c : Catalog} (h : Reachable c) {k : Edit.Command} (hk : k.Issued c) :
      Reachable (k.outcome c).2

/-- A list of commands leads from a reachable catalog to another one. -/
theorem Reachable.run {c : Catalog} (h : Reachable c) {ks : List Edit.Command}
    (hks : Edit.Command.AllIssued c ks) : Reachable (Edit.Command.run c ks) := by
  induction ks generalizing c with
  | nil => exact h
  | cons k ks ih => exact ih (h.edit hks.1) hks.2

/-- Columns and tables belong together in every catalog that edits reach. -/
theorem Reachable.linked {c : Catalog} (h : Reachable c) : c.Linked := by
  induction h with
  | empty => exact linked_empty
  | edit _ hk ih => exact (Edit.Command.mutations_outcome ih hk).linked ih

end Catalog
end SchemaSync
