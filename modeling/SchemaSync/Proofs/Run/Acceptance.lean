import SchemaSync.Model.Sample
import SchemaSync.Proofs.Diff.Outcome
import SchemaSync.Proofs.Model.Consistency
import SchemaSync.Proofs.Rows.Slots
import SchemaSync.Proofs.Run.Reading

/-!
# Schemas that a diff takes

A diff compares what was read from a database with what declarations describe, and neither of the two is
verified when it is made. Declarations number their primary keys from 1 on and turn unique indexes into
constraints, so what they describe is always taken as the desired side. What a database reports is verified
unless the slots of a primary key have a gap, whatever else its rows say. The main statement is
`acceptable_schemas`.
-/

namespace SchemaSync

open Catalog

namespace Reading

variable {σ : Type} {conn : Connection σ} {start : Option String} {w w' : World σ} {c : Catalog} {s : SnapshotId}

/-- A schema that is read has been assembled from the answers to the queries. -/
theorem assembled_of_schema (h : (schema conn start).run.run w = (.ok (c, s), w')) :
    ∃ a v d, (answers conn).run.run w = (.ok a, v) ∧
      outcomeOf (Rows.assemble start a) ⟨.empty, []⟩ = (.ok s, d) ∧ d.catalog = c := by
  obtain ⟨a, v, d, ha, hassembled, hc, -⟩ := schema_eq_ok_iff.mp h
  exact ⟨a, v, d, ha, hassembled, hc⟩

end Reading

/-- **Both ways to a schema end in one that a diff takes**: declarations always do, for a diff refuses what
they describe only on account of the current side. A schema that is read from a database, whatever the rows
that answer the queries, is verified exactly if the positive slots that the rows of each kept table give are
the numbers from 1 on. -/
theorem acceptable_schemas :
    (∀ start models c s, Model.schema start models = .ok (c, s) →
      (c.snapshot s).verify = .ok () ∧ (c.snapshot s).uniqueIndexes = [] ∧
        ∀ suffixes (current : Snapshot) creationMode,
          (∃ p, Snapshot.diff suffixes current (c.snapshot s) creationMode = .ok p) ↔
            current.Allows creationMode ∧ current.verify = .ok ()) ∧
    ∀ (σ : Type) (conn : Connection σ) start w c s w',
      (Reading.schema conn start).run.run w = (.ok (c, s), w') →
        ∃ a v, (Reading.answers conn).run.run w = (.ok a, v) ∧
          ((c.snapshot s).verify = .ok () ↔ ∀ r ∈ (a.keep start).columns,
            ∃ n, (Rows.tableSlots (a.keep start).columns r.table).Perm (Table.slotsUpTo n)) := by
  constructor
  · intro start models c s h
    obtain ⟨hverify, hunique⟩ := Model.verify_schema h
    refine ⟨hverify, hunique, fun suffixes current creationMode => ?_⟩
    by_cases hallows : current.Allows creationMode
    · rw [hallows.diff_eq, hverify, hunique]
      cases hcurrent : current.verify with
      | error v => simp
      | ok u => simp [hallows]
    · rw [Snapshot.diff_eq_of_not_allows hallows]
      simp [hallows]
  · intro σ conn start w c s w' h
    obtain ⟨a, v, d, ha, hassembled, rfl⟩ := Reading.assembled_of_schema h
    exact ⟨a, v, ha, Rows.verify_assemble hassembled⟩

def gappedAnswers : Rows.Answers where
  columns := [⟨"users", "a", "INTEGER", 1, 1, none⟩, ⟨"users", "b", "INTEGER", 3, 1, none⟩,
    ⟨"posts", "u", "INTEGER", 1, 1, none⟩]
  foreignKeys := []
  indexes := []

theorem acceptable_schemas_lending :
    (∃ c s, Model.schema none Sample.lending = .ok (c, s) ∧
      (∃ p, Snapshot.diff Nat.repr (c.snapshot s) (c.snapshot s) false = .ok p)) ∧
    ∃ c s w, (Reading.schema (Reading.answering gappedAnswers) none).run.run ⟨(), []⟩ = (.ok (c, s), w) ∧
      (c.snapshot s).verify ≠ .ok () := by
  constructor
  · obtain ⟨c, s, h⟩ : ∃ c s, Model.schema none Sample.lending = .ok (c, s) := ⟨_, _, by cbv⟩
    obtain ⟨hverify, -, htaken⟩ := acceptable_schemas.1 none Sample.lending c s h
    exact ⟨c, s, h, (htaken Nat.repr _ false).mpr ⟨fun h => absurd h Bool.false_ne_true, hverify⟩⟩
  · have hread : ((Reading.schema (Reading.answering gappedAnswers) none).run.run ⟨(), []⟩).1.toOption.isSome
        = true := by decide +kernel
    rcases h : (Reading.schema (Reading.answering gappedAnswers) none).run.run ⟨(), []⟩ with ⟨e | ⟨c, s⟩, w⟩
    · rw [h] at hread
      cases hread
    · refine ⟨c, s, w, rfl, fun hverify => ?_⟩
      obtain ⟨a, v, ha, hslots⟩ := acceptable_schemas.2 Unit _ none _ c s w h
      obtain ⟨v', hanswers⟩ := Reading.run_answers (Reading.serves_answering gappedAnswers) ⟨(), []⟩
      obtain ⟨hsame, -⟩ := Prod.mk.inj (hanswers.symm.trans ha)
      obtain rfl : gappedAnswers = a := Except.ok.inj hsame
      obtain ⟨n, hn⟩ := hslots.mp hverify ⟨"users", "a", "INTEGER", 1, 1, none⟩ (by decide)
      replace hn : [1, 3].Perm (Table.slotsUpTo n) := hn
      have hthree := Table.mem_slotsUpTo.mp (hn.subset (by decide : (3 : Int) ∈ [1, 3]))
      have hlength : 2 = n := by simpa [Table.slotsUpTo] using hn.length_eq
      omega

end SchemaSync
