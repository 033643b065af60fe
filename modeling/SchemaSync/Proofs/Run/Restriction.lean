import SchemaSync.Proofs.Rows.Restriction
import SchemaSync.Proofs.Run.Reading

/-!
# Reading the chosen tables of a database

A start restricts what is read from a database, and nothing else: the same queries are asked, and where all
tables can be read, the chosen ones can be read as well, whatever the rows are. What happens to the rows is the
matter of `Rows.restrict_assemble`.
-/

namespace SchemaSync.Reading

open Rows

variable {σ : Type} {conn : Connection σ} {w w' : World σ} {c : Catalog} {s : SnapshotId}

/-- **Reading the chosen tables is restriction**: where a database can be read without a start, it can be read with
any one. The tables are the chosen ones, without their foreign keys to other tables. In `os` stands what each foreign
key of the database came to without a start, and so every foreign key that was read has its number there; one of a
chosen table to another table is now logged once, as one whose target is missing. -/
theorem schema_restricted (h : (schema conn none).run.run w = (.ok (c, s), w')) (start : Option String) :
    ∃ (a : Answers) (v : World σ) (c' : Catalog) (s' : SnapshotId) (warnings : List Warning) (os : List KeyOutcome),
      (answers conn).run.run w = (.ok a, v) ∧
      (schema conn start).run.run w = (.ok (c', s'), ⟨v.state, v.trace ++ warnings.map warningEvent⟩) ∧
      (c'.snapshot s').shape = restrict (Selection.isChosen start) (c.snapshot s).shape ∧
      Accounts (a.keep none) os ∧
      (∀ table sh, (c.snapshot s).shape.get? table = some sh → sh.foreignKeys = KeyOutcome.keysOn os table) ∧
      ∀ o ∈ os, ∀ key ∈ o.key?, Selection.isChosen start o.table = true →
        Selection.isChosen start key.target = false →
        (warnings.filter fun warning => warning.key? = some o.name) =
          [.targetMissing key.target o.number o.table] := by
  obtain ⟨a, v, d, hanswers, hassembled, rfl, -⟩ := schema_eq_ok_iff.mp h
  obtain ⟨s', d', hrun, hshape, os, hos, hkeys, hdropped⟩ := restrict_assemble hassembled start
  exact ⟨a, v, d'.catalog, s', d'.warnings, os, hanswers,
    schema_eq_ok_iff.mpr ⟨a, v, d', hanswers, hrun, rfl, rfl⟩, hshape, hos, hkeys, hdropped⟩

/-- Three tables: one is not of the application, and a note of the application leads to it. -/
def appAnswers : Answers where
  columns := [⟨"users", "id", "INTEGER", 1, 1, none⟩, ⟨"app_notes", "id", "INTEGER", 1, 1, none⟩,
    ⟨"app_notes", "author", "INTEGER", 0, 1, none⟩, ⟨"app_links", "note", "INTEGER", 0, 1, none⟩]
  foreignKeys := [⟨"app_notes", 0, 0, "users", "author", none, "NO ACTION", "CASCADE"⟩,
    ⟨"app_links", 0, 0, "app_notes", "note", some "id", "NO ACTION", "NO ACTION"⟩]
  indexes := [⟨"app_notes", "app_notes_author", 0, "c", some "author", 0⟩]

theorem schema_restricted_app :
    ∃ c s w', (schema (answering appAnswers) none).run.run ⟨(), []⟩ = (.ok (c, s), w') ∧
      ∃ (a : Answers) (v : World Unit) (c' : Catalog) (s' : SnapshotId) (warnings : List Warning)
        (os : List KeyOutcome), (answers (answering appAnswers)).run.run ⟨(), []⟩ = (.ok a, v) ∧
        (schema (answering appAnswers) (some "app_")).run.run ⟨(), []⟩ =
          (.ok (c', s'), ⟨v.state, v.trace ++ warnings.map warningEvent⟩) ∧
        (c'.snapshot s').shape = restrict (Selection.isChosen (some "app_")) (c.snapshot s).shape ∧
        Accounts (a.keep none) os ∧
        (∀ table sh, (c.snapshot s).shape.get? table = some sh → sh.foreignKeys = KeyOutcome.keysOn os table) ∧
        (∃ o ∈ os, o.table = "app_notes" ∧ ∃ key ∈ o.key?, key.target = "users") ∧
        ∀ o ∈ os, ∀ key ∈ o.key?, Selection.isChosen (some "app_") o.table = true →
          Selection.isChosen (some "app_") key.target = false →
          (warnings.filter fun warning => warning.key? = some o.name) =
            [.targetMissing key.target o.number o.table] := by
  have hread : ((schema (answering appAnswers) none).run.run ⟨(), []⟩).1.toOption.bind (fun x =>
      ((x.1.snapshot x.2).shape.get? "app_notes").map fun sh => sh.foreignKeys.map KeyForm.target) =
        some ["users"] := by decide +kernel
  rcases h : (schema (answering appAnswers) none).run.run ⟨(), []⟩ with ⟨e | ⟨c, s⟩, w'⟩
  · rw [h] at hread
    cases hread
  · rw [h] at hread
    obtain ⟨sh, hsh, htargets⟩ := Option.map_eq_some_iff.mp hread
    obtain ⟨a, v, c', s', warnings, os, hanswers, hrun, hshape, hos, hkeys, hdropped⟩ :=
      schema_restricted h (some "app_")
    refine ⟨c, s, w', rfl, a, v, c', s', warnings, os, hanswers, hrun, hshape, hos, hkeys, ?_, hdropped⟩
    -- The only foreign key of the notes leads out of the application.
    obtain ⟨key, hmem, htarget⟩ : ∃ key ∈ sh.foreignKeys, key.target = "users" :=
      List.mem_map.mp (htargets ▸ List.mem_singleton_self "users")
    rw [hkeys _ sh hsh, KeyOutcome.keysOn, List.mem_filterMap] at hmem
    obtain ⟨o, ho, hkey⟩ := hmem
    rw [List.mem_filter, decide_eq_true_iff] at ho
    exact ⟨o, ho.1, ho.2, key, hkey, htarget⟩

end SchemaSync.Reading
