import SchemaSync.Proofs.Catalog.Strokes

/-!
# Restriction to chosen tables

A schema restricted to some names has the tables of these names, and of their foreign keys those that lead to
such tables. Strokes on a table that is kept commute with restriction (`Stroke.Step.restrict`), and those on
another table do not count (`Stroke.Step.restrict_eq`): all that a stroke asks of the other tables is that
they leave the name of an index free, and fewer tables leave more names free.
-/

namespace SchemaSync

variable {keep : String → Bool} {m n : OrderedMap String TableShape} {sh : TableShape} {name : String}

/-! ## Restricted shapes -/

/-- The shape of a table without the foreign keys to tables that are not kept. -/
def TableShape.within (keep : String → Bool) (sh : TableShape) : TableShape :=
  { sh with foreignKeys := sh.foreignKeys.filter fun key => keep key.target }

/-- The kept tables, without their foreign keys to other ones. -/
def restrict (keep : String → Bool) (m : OrderedMap String TableShape) : OrderedMap String TableShape :=
  m.filterMap fun name sh => if keep name = true then some (sh.within keep) else none

theorem get?_restrict (m : OrderedMap String TableShape) (hkeep : keep name = true) :
    (restrict keep m).get? name = (m.get? name).map (.within keep) := by
  rw [restrict, OrderedMap.get?_filterMap]
  simp only [hkeep, if_true]
  cases m.get? name <;> rfl

theorem get?_restrict_eq_none (m : OrderedMap String TableShape) (hkeep : keep name = false) :
    (restrict keep m).get? name = none := by
  rw [restrict, OrderedMap.get?_filterMap]
  simp [hkeep]

theorem keys_restrict (keep : String → Bool) (m : OrderedMap String TableShape) :
    (restrict keep m).keys = m.keys.filter keep := by
  have hcontains : ∀ name ∈ m.keys, (restrict keep m).contains name = keep name := by
    intro name hname
    obtain ⟨sh, hsh⟩ := OrderedMap.mem_keys_iff.mp hname
    cases hkeep : keep name with
    | true => rw [OrderedMap.contains, get?_restrict m hkeep, hsh, Option.map_some, Option.isSome_some]
    | false => rw [OrderedMap.contains, get?_restrict_eq_none m hkeep, Option.isSome_none]
  show (m.filterMap _).keys = _
  rw [OrderedMap.keys_filterMap]
  exact List.filter_congr hcontains

/-- Two maps of shapes have the same restriction if kept names lead to the same there. -/
theorem eq_restrict_iff : n = restrict keep m ↔ n.keys = m.keys.filter keep ∧
    ∀ name, keep name = true → n.get? name = (m.get? name).map (.within keep) := by
  constructor
  · rintro rfl
    exact ⟨keys_restrict keep m, fun name hkeep => get?_restrict m hkeep⟩
  · rintro ⟨hkeys, hget⟩
    refine OrderedMap.eq_of_get? (hkeys.trans (keys_restrict keep m).symm) fun name => ?_
    cases hkeep : keep name with
    | true => rw [hget name hkeep, get?_restrict m hkeep]
    | false =>
        rw [get?_restrict_eq_none m hkeep, OrderedMap.get?_eq_none_iff, hkeys, List.mem_filter, hkeep]
        exact fun h => Bool.false_ne_true h.2

/-- A kept table that is put in is put into the restriction. -/
theorem restrict_insert_of_keep (m : OrderedMap String TableShape) (sh : TableShape) (hkeep : keep name = true) :
    restrict keep (m.insert name sh) = (restrict keep m).insert name (sh.within keep) := by
  refine (eq_restrict_iff.mpr ⟨?_, fun key hkey => ?_⟩).symm
  · rw [OrderedMap.keys_insert, OrderedMap.keys_insert, keys_restrict]
    by_cases hname : name ∈ m.keys
    · rw [if_pos hname, if_pos (List.mem_filter.mpr ⟨hname, hkeep⟩)]
    · rw [if_neg hname, if_neg fun h => hname (List.mem_of_mem_filter h), List.filter_append]
      simp [hkeep]
  · rw [OrderedMap.get?_insert, OrderedMap.get?_insert, get?_restrict m hkey]
    split <;> rfl

/-- A table that is not kept does not count. -/
theorem restrict_insert_of_not_keep (m : OrderedMap String TableShape) (sh : TableShape) (hkeep : keep name = false) :
    restrict keep (m.insert name sh) = restrict keep m := by
  refine (eq_restrict_iff.mpr ⟨?_, fun key hkey => ?_⟩).symm
  · rw [keys_restrict, OrderedMap.keys_insert]
    split
    next => rfl
    next => simp [List.filter_append, hkeep]
  · have hne : name ≠ key := by
      rintro rfl
      exact Bool.false_ne_true (hkeep.symm.trans hkey)
    rw [get?_restrict m hkey, OrderedMap.get?_insert, if_neg hne]

theorem restrict_update_of_not_keep (m : OrderedMap String TableShape) (f : TableShape → TableShape)
    (hkeep : keep name = false) : restrict keep (m.update name f) = restrict keep m := by
  unfold OrderedMap.update
  cases m.get? name with
  | none => rfl
  | some sh => exact restrict_insert_of_not_keep m _ hkeep

/-- Of added foreign keys those to kept tables are left. -/
theorem TableShape.within_addForeignKeys (keys : List KeyForm) (sh : TableShape) :
    (sh.addForeignKeys keys).within keep =
      (sh.within keep).addForeignKeys (keys.filter fun key => keep key.target) := by
  unfold within addForeignKeys
  rw [List.filter_append]

theorem restrict_update_addForeignKeys (m : OrderedMap String TableShape) (keys : List KeyForm)
    (hkeep : keep name = true) : restrict keep (m.update name (.addForeignKeys keys)) =
      (restrict keep m).update name (.addForeignKeys (keys.filter fun key => keep key.target)) := by
  unfold OrderedMap.update
  rw [get?_restrict m hkeep]
  cases m.get? name with
  | none => rfl
  | some sh =>
      rw [Option.map_some]
      dsimp only
      rw [restrict_insert_of_keep m _ hkeep, TableShape.within_addForeignKeys]

/-- Restriction leaves the columns and primary keys of kept tables. -/
theorem sameColumnsAt_restrict (m : OrderedMap String TableShape) (hkeep : keep name = true) :
    SameColumnsAt m (restrict keep m) name := by
  rw [SameColumnsAt, get?_restrict m hkeep, Option.map_map]
  rfl

theorem exists_get?_restrict (hkeep : keep name = true) :
    (∃ sh, (restrict keep m).get? name = some sh) ↔ ∃ sh, m.get? name = some sh := by
  rw [get?_restrict m hkeep]
  simp [Option.map_eq_some_iff]

/-! ## Strokes on restricted shapes -/

/-- Index names that are taken by kept tables are taken. -/
theorem Taken.of_restrict {index : String} (h : Taken (restrict keep m) name index) : Taken m name index := by
  obtain ⟨key, other, hne, hother, hindex⟩ := h
  cases hkeep : keep key with
  | true =>
      rw [get?_restrict m hkeep] at hother
      obtain ⟨whole, hwhole, rfl⟩ := Option.map_eq_some_iff.mp hother
      exact ⟨key, whole, hne, hwhole, hindex⟩
  | false =>
      rw [get?_restrict_eq_none m hkeep] at hother
      cases hother

namespace Stroke

variable {taken free : String → Prop} {st : Stroke}

/-- What a stroke asks of its table does not touch foreign keys. -/
theorem fits_within : st.Fits taken (sh.within keep) ↔ st.Fits taken sh := by
  cases st <;> exact Iff.rfl

theorem draw_within (sh : TableShape) (st : Stroke) : draw (sh.within keep) st = (draw sh st).within keep := by
  cases st with
  | column spec =>
      unfold draw
      dsimp only
      split <;> rfl
  | _ => rfl

theorem foldl_draw_within (sh : TableShape) (sts : List Stroke) :
    sts.foldl draw (sh.within keep) = (sts.foldl draw sh).within keep := by
  induction sts generalizing sh with
  | nil => rfl
  | cons st sts ih => rw [List.foldl_cons, List.foldl_cons, draw_within, ih]

/-- Strokes fit as well where fewer index names are taken. -/
theorem Fits.mono (h : st.Fits taken sh) (hfree : ∀ index, free index → taken index) : st.Fits free sh := by
  obtain ⟨hfits, hnames⟩ := fits_iff.mp h
  exact fits_iff.mpr ⟨hfits, fun index hindex hfreed => hnames index hindex (hfree index hfreed)⟩

theorem fitAll_within {sts : List Stroke} : FitAll taken (sh.within keep) sts ↔ FitAll taken sh sts := by
  induction sts generalizing sh with
  | nil => exact Iff.rfl
  | cons st sts ih => rw [FitAll, FitAll, fits_within, draw_within, ih]

/-- A stroke on a kept table goes through on the kept tables. -/
theorem Step.restrict (h : st.Step name m n) (hkeep : keep name = true) :
    st.Step name (restrict keep m) (restrict keep n) := by
  obtain ⟨sh, hname, hfits, rfl⟩ := h
  refine ⟨sh.within keep, ?_, fits_within.mpr (hfits.mono fun index => Taken.of_restrict), ?_⟩
  · rw [get?_restrict m hkeep, hname, Option.map_some]
  · rw [restrict_insert_of_keep m _ hkeep, draw_within]

/-- A stroke on another table changes nothing of the kept ones. -/
theorem Step.restrict_eq (h : st.Step name m n) (hkeep : keep name = false) :
    SchemaSync.restrict keep n = SchemaSync.restrict keep m := by
  obtain ⟨sh, -, -, rfl⟩ := h
  exact restrict_insert_of_not_keep m _ hkeep

/-- Strokes on a kept table go through on the kept tables. -/
theorem moves_restrict {sts : List Stroke} (h : Moves (Step name) sts m n) (hkeep : keep name = true) :
    Moves (Step name) sts (restrict keep m) (restrict keep n) := by
  induction sts generalizing m with
  | nil => exact congrArg (restrict keep) h
  | cons st sts ih =>
      obtain ⟨k, hk, hrest⟩ := h
      exact ⟨restrict keep k, hk.restrict hkeep, ih hrest⟩

theorem moves_restrict_eq {sts : List Stroke} (h : Moves (Step name) sts m n) (hkeep : keep name = false) :
    restrict keep n = restrict keep m :=
  h.field_eq (restrict keep) fun _ _ _ _ hstep => hstep.restrict_eq hkeep

end Stroke
end SchemaSync
