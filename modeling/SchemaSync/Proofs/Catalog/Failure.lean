import SchemaSync.Proofs.Catalog.Edits

/-!
# Failed edits

Every edit but one checks all its rules before it writes, so it leaves the catalog as it was when it
fails. The exception sets a whole primary key: it is a run of edits, one a column, that stops at the first
that fails. What it leaves is then what the edits before that one have made of the catalog.

The main statement is `Edit.Command.failed_outcome`.
-/

namespace SchemaSync.Edit

open Catalog

variable {α : Type} {c d : Catalog} {R : Catalog → Catalog → Prop} {t : TableId} {x : EditError}

/-- An atomic edit that fails leaves the catalog as it was. -/
theorem Atomic.eq_of_error {e : Edit α} (h : Atomic R e c) (hx : outcome e c = (.error x, d)) : d = c := by
  rcases h with ⟨y, hy⟩ | ⟨a, e, ha, -⟩
  · rw [hy] at hx
    exact (Prod.mk.inj hx).2.symm
  · rw [ha] at hx
    cases (Prod.mk.inj hx).1

namespace Command

/-! ## Failing commands -/

/-- A command of which the handle is forgotten fails where its edit does. -/
theorem done_eq_error {o : Except EditError α × Catalog} (h : (outcome.done o).1 = .error x) :
    o = (.error x, (outcome.done o).2) := by
  obtain ⟨r, d⟩ := o
  cases r with
  | error y =>
      cases h
      rfl
  | ok a => cases h

/-- A command that fails leaves the catalog as it was, unless it sets a whole primary key. -/
theorem outcome_eq_of_error (hl : c.Linked) {k : Command} (hk : k.Issued c)
    (hnot : ∀ t columns, k ≠ setPrimaryKey t columns) (hx : (k.outcome c).1 = .error x) :
    (k.outcome c).2 = c := by
  have hpair : k.outcome c = (.error x, (k.outcome c).2) := Prod.ext hx rfl
  cases k with
  | createSnapshot => exact atomic_createSnapshot.eq_of_error (done_eq_error hx)
  | createTable s name => exact (atomic_createTable hk name).eq_of_error (done_eq_error hx)
  | renameTable s old new => exact (atomic_renameTable s old new).eq_of_error hpair
  | removeTable s name => exact (atomic_removeTable s name).eq_of_error hpair
  | createColumn t spec => exact (atomic_createColumn hl hk spec).eq_of_error (done_eq_error hx)
  | renameColumn t old new => exact (atomic_renameColumn t old new).eq_of_error hpair
  | rename id new => exact (atomic_rename id new).eq_of_error hpair
  | setPrimaryKeyColumn t column slot =>
      exact (atomic_setPrimaryKeyColumn hl hk.1 hk.2 slot).eq_of_error hpair
  | setPrimaryKey t columns => exact absurd rfl (hnot t columns)
  | createIndex t name columns unique =>
      exact (atomic_createIndex hl hk.1 name hk.2 unique).eq_of_error (done_eq_error hx)
  | createUnique t columns => exact (atomic_createUnique hl hk.1 hk.2).eq_of_error (done_eq_error hx)
  | createForeignKey t spec =>
      obtain ⟨ht, htarget, hlocal, hforeign⟩ := hk
      exact (atomic_createForeignKey hl ht (reads_resolveTable hl t htarget) (fun _ hu => hu) hlocal
        hforeign fun _ _ hmade => hmade).eq_of_error (done_eq_error hx)

/-! ## Failing keys -/

/-- The commands that put columns into the primary key slots from `slot` on, one after the other. -/
def keySteps (t : TableId) (slot : Int) : List ColumnRef → List Command
  | [] => []
  | r :: rs => setPrimaryKeyColumn t r slot :: keySteps t (slot + 1) rs

/-- All commands of a list succeed, one after the other, and leave the catalog `d`. -/
def Completes (c : Catalog) : List Command → Catalog → Prop
  | [], d => d = c
  | k :: ks, d => (k.outcome c).1 = .ok () ∧ Completes (k.outcome c).2 ks d

/-- A run of key columns that fails has filled the slots before the failing column, and this column
fails on what they leave. -/
theorem setPrimaryKeyFrom_eq_error : ∀ {columns : List ColumnRef} {c : Catalog} {slot : Int}, c.Linked →
    c.tables.Issued t → (∀ r ∈ columns, r.Issued c) →
    Edit.outcome (setPrimaryKeyFrom t slot columns) c = (.error x, d) →
      ∃ before r after, columns = before ++ r :: after ∧ Completes c (keySteps t slot before) d ∧
        (setPrimaryKeyColumn t r (slot + before.length)).outcome d = (.error x, d)
  | [], _, _, _, _, _, hx => by cases (Prod.mk.inj hx).1
  | r :: rs, c, slot, hl, ht, hrs, hx => by
    have hbind : Edit.outcome (setPrimaryKeyFrom t slot (r :: rs)) c =
        Edit.outcome (Edit.setPrimaryKeyColumn t r slot >>= fun _ =>
          setPrimaryKeyFrom t (slot + 1) rs) c := rfl
    rw [hbind, outcome_bind] at hx
    obtain ⟨hr, hrest⟩ := List.forall_mem_cons.mp hrs
    rcases atomic_setPrimaryKeyColumn hl ht hr slot with ⟨y, hy⟩ | ⟨u, c', hfilled, hsteps⟩
    · -- The first column fails, and nothing has been written.
      rw [hy] at hx
      obtain ⟨hxy, rfl⟩ := Prod.mk.inj hx
      cases hxy
      refine ⟨[], r, rs, rfl, rfl, ?_⟩
      rw [List.length_nil, Nat.cast_zero, Int.add_zero]
      exact hy
    · rw [hfilled] at hx
      have hmutations := PlainMutations.mutations hsteps
      obtain ⟨before, q, after, rfl, hdone, hfails⟩ := setPrimaryKeyFrom_eq_error
        (hmutations.linked hl) (hmutations.issued_table ht)
        (fun q hq => (hrest q hq).mono hmutations) hx
      have houtcome : (setPrimaryKeyColumn t r slot).outcome c = (.ok (), c') := hfilled
      have hslot : slot + 1 + (before.length : Int) = slot + ((r :: before).length : Nat) := by
        rw [List.length_cons]
        omega
      refine ⟨r :: before, q, after, rfl, ⟨by rw [houtcome], ?_⟩, hslot ▸ hfails⟩
      rw [houtcome]
      exact hdone

/-- **Failed edits**: in a reachable catalog, a command that fails leaves every part as it was; only a
whole primary key keeps the columns before the failing one, each put into its slot by a command that
succeeded, and the next column then fails by itself with the same error. -/
theorem failed_outcome (h : c.Reachable) {k : Command} (hk : k.Issued c)
    (hx : (k.outcome c).1 = .error x) :
    ((∀ t columns, k ≠ setPrimaryKey t columns) → (k.outcome c).2 = c) ∧
      ∀ t columns, k = setPrimaryKey t columns → ∃ before r after, columns = before ++ r :: after ∧
        Completes c (keySteps t 1 before) (k.outcome c).2 ∧
        (setPrimaryKeyColumn t r (before.length + 1)).outcome (k.outcome c).2 =
          (.error x, (k.outcome c).2) := by
  constructor
  · intro hnot
    exact outcome_eq_of_error h.linked hk hnot hx
  · rintro t columns rfl
    have hpair : Edit.outcome (setPrimaryKeyFrom t 1 columns) c =
        (.error x, ((setPrimaryKey t columns).outcome c).2) := Prod.ext hx rfl
    obtain ⟨before, r, after, hsplit, hdone, hfails⟩ :=
      setPrimaryKeyFrom_eq_error h.linked hk.1 hk.2 hpair
    rw [Int.add_comm] at hfails
    exact ⟨before, r, after, hsplit, hdone, hfails⟩

def pairOfColumns : List Command :=
  [.createSnapshot, .createTable ⟨0⟩ "seats",
    .createColumn ⟨0⟩ ⟨"row", "INTEGER", true, none, false, false⟩,
    .createColumn ⟨0⟩ ⟨"number", "INTEGER", true, none, false, false⟩]

def brokenKey : Command := .setPrimaryKey ⟨0⟩ [.named "row", .named "letter", .named "number"]

theorem failed_outcome_brokenKey :
    AllIssued .empty pairOfColumns ∧ brokenKey.Issued (run .empty pairOfColumns) ∧
      (brokenKey.outcome (run .empty pairOfColumns)).1 = .error (.noColumn "letter" "seats") ∧
      ∃ before r after, [.named "row", .named "letter", .named "number"] = before ++ r :: after ∧
        Completes (run .empty pairOfColumns) (keySteps ⟨0⟩ 1 before)
          (brokenKey.outcome (run .empty pairOfColumns)).2 ∧
        (setPrimaryKeyColumn ⟨0⟩ r (before.length + 1)).outcome
            (brokenKey.outcome (run .empty pairOfColumns)).2 =
          (.error (.noColumn "letter" "seats"), (brokenKey.outcome (run .empty pairOfColumns)).2) := by
  have hissued : AllIssued .empty pairOfColumns := by decide
  have hkey : brokenKey.Issued (run .empty pairOfColumns) := by decide
  have hfails : (brokenKey.outcome (run .empty pairOfColumns)).1 =
      .error (.noColumn "letter" "seats") := by cbv
  refine ⟨hissued, hkey, hfails, ?_⟩
  exact (failed_outcome (Reachable.empty.run hissued) hkey hfails).2 _ _ rfl

end Command
end SchemaSync.Edit
