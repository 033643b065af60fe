import SchemaSync.Model.Sample
import SchemaSync.Proofs.Diff.Reordering
import SchemaSync.Proofs.Model.Consistency

/-!
# The order of declarations

Whether declarations are consistent is a matter of each of them, of each two of them and of what they refer
to by name, so it does not depend on their order; nor does the shape of any table that they describe. Only
the order of the tables is that of the declarations. The main statement is `Model.schema_perm`.
-/

namespace SchemaSync.Model

variable {xs ys : List Model} {start : Option String}

/-- Tables are found under the same names, without their foreign keys. -/
theorem get?_outline_of_perm (h : xs.Perm ys) (hx : xs.Pairwise Apart) (hy : ys.Pairwise Apart) (name : String) :
    (outline xs).get? name = (outline ys).get? name := by
  apply OrderedMap.get?_eq_of_perm
  rw [entries_outline hx, entries_outline hy]
  exact h.map _

theorem sameColumns_outline_of_perm (h : xs.Perm ys) (hx : xs.Pairwise Apart) (hy : ys.Pairwise Apart) :
    SameColumns (outline xs) (outline ys) := by
  intro name
  rw [get?_outline_of_perm h hx hy]

theorem pairwise_apart_of_perm (h : xs.Perm ys) : xs.Pairwise Apart ↔ ys.Pairwise Apart :=
  h.pairwise_iff Apart.symm

theorem Consistent.of_perm (h : xs.Perm ys) (hx : Consistent xs) : Consistent ys where
  drawable := fun y hy => hx.drawable y (h.mem_iff.mpr hy)
  apart := (pairwise_apart_of_perm h).mp hx.apart
  references := by
    intro y hy d hd
    have hsame := sameColumns_outline_of_perm h hx.apart ((pairwise_apart_of_perm h).mp hx.apart)
    exact (ForeignKeyDeclaration.fits_congr hsame).mp (hx.references y (h.mem_iff.mpr hy) d hd)

theorem consistent_iff_of_perm (h : xs.Perm ys) : Consistent xs ↔ Consistent ys :=
  ⟨.of_perm h, .of_perm h.symm⟩

/-- Under each name there is a table of the same shape. -/
theorem get?_shapes_of_perm (h : xs.Perm ys) (hx : xs.Pairwise Apart) (name : String) :
    (shapes xs).get? name = (shapes ys).get? name := by
  have hy := (pairwise_apart_of_perm h).mp hx
  have hkeys : ∀ x : Model, x.keys (outline xs) = x.keys (outline ys) := fun x =>
    ForeignKeyDeclaration.forms_congr (sameColumns_outline_of_perm h hx hy) _
  ext sh
  rw [get?_shapes_eq_some_iff hx, get?_shapes_eq_some_iff hy]
  simp only [hkeys, h.mem_iff]

/-- **The order of declarations does not matter**: in one order they describe a schema exactly if they do in
another, with the same tables, each with its columns, key, constraints, foreign keys and indexes in the same
order. A diff of any schema to either of the two fails with the same error, or classifies every table in the
same way and for the same reasons. -/
theorem schema_perm (h : xs.Perm ys) (start : Option String) :
    ((∃ c s, Model.schema start xs = .ok (c, s)) ↔ ∃ c s, Model.schema start ys = .ok (c, s)) ∧
    ∀ c s d t, Model.schema start xs = .ok (c, s) → Model.schema start ys = .ok (d, t) →
      (c.snapshot s).tables.keys.Perm (d.snapshot t).tables.keys ∧
      (c.snapshot s).SameTables (d.snapshot t) ∧
      ∀ suffixes current creationMode,
        Snapshot.AnswerAlike (Snapshot.diff suffixes current (c.snapshot s) creationMode)
          (Snapshot.diff suffixes current (d.snapshot t) creationMode) := by
  have hchosen : (chosen start xs).Perm (chosen start ys) := h.filter _
  refine ⟨by rw [schema_eq_ok_iff, schema_eq_ok_iff, consistent_iff_of_perm hchosen], ?_⟩
  intro c s d t hc hd
  obtain ⟨hx, hcdraws⟩ := draws_schema hc
  obtain ⟨hy, hddraws⟩ := draws_schema hd
  obtain ⟨hcv, hcu⟩ := verify_schema hc
  obtain ⟨hdv, hdu⟩ := verify_schema hd
  have hsame : (c.snapshot s).SameTables (d.snapshot t) := by
    intro name
    rw [hcdraws.shape, hddraws.shape]
    exact get?_shapes_of_perm hchosen hx.apart name
  have hkeys : ∀ u : Snapshot, u.tables.keys = u.shape.keys := fun u => (OrderedMap.keys_map _ _).symm
  refine ⟨?_, hsame, fun suffixes current creationMode => ?_⟩
  · rw [hkeys, hkeys, hcdraws.shape, hddraws.shape, keys_shapes hx.apart, keys_shapes hy.apart]
    exact hchosen.map _
  · exact hsame.diff_alike (hcdraws.wellFormed.linked.snapshot_sound (Snapshot.verify_eq_ok_iff.mp hcv))
      (hddraws.wellFormed.linked.snapshot_sound (Snapshot.verify_eq_ok_iff.mp hdv)) hcv hdv hcu hdu suffixes
        current creationMode

theorem schema_perm_lending : ∃ c s d t, Model.schema none [Sample.reader, Sample.loan] = .ok (c, s) ∧
    Model.schema none [Sample.loan, Sample.reader] = .ok (d, t) ∧
      (c.snapshot s).tables.keys = ["readers", "loans"] ∧ (d.snapshot t).tables.keys = ["loans", "readers"] ∧
        (c.snapshot s).SameTables (d.snapshot t) ∧
        ∀ suffixes current creationMode,
          Snapshot.AnswerAlike (Snapshot.diff suffixes current (c.snapshot s) creationMode)
            (Snapshot.diff suffixes current (d.snapshot t) creationMode) := by
  obtain ⟨c, s, hc, hckeys⟩ : ∃ c s, Model.schema none [Sample.reader, Sample.loan] = .ok (c, s) ∧
      (c.snapshot s).tables.keys = ["readers", "loans"] := ⟨_, _, by cbv, by cbv⟩
  have hperm := schema_perm (.swap Sample.loan Sample.reader []) none
  obtain ⟨d, t, hd⟩ := hperm.1.mp ⟨c, s, hc⟩
  have hdkeys : (Model.schema none [Sample.loan, Sample.reader]).toOption.map
      (fun x => (x.1.snapshot x.2).tables.keys) = some ["loans", "readers"] := by cbv
  rw [hd] at hdkeys
  obtain ⟨-, hsame, halike⟩ := hperm.2 c s d t hc hd
  exact ⟨c, s, d, t, hc, hd, hckeys, Option.some.inj hdkeys, hsame, halike⟩

end SchemaSync.Model
