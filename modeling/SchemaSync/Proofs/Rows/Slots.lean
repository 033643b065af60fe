import SchemaSync.Proofs.Rows.Passes

/-!
# Primary keys from rows

Of all that an assembly puts together only the primary key slots can have gaps. They are filled by the rows
of columns alone: such a row fills the slot that it gives, if it gives one, and the foreign keys and indexes
behind keep every slot, whether they are made or left out. So when an assembly has gone through, the slots
that are filled on a table are the positive ones of its rows (`Rows.Passes.slotNumbers_eq`), whatever else the
rows say.
-/

namespace SchemaSync.Rows

open Catalog

variable {s : SnapshotId} {k l : Sketch}

/-! ## Slots of a shape -/

def slotNumbers (m : OrderedMap String TableShape) : OrderedMap String (List Int) :=
  m.map fun sh => sh.slots.keys

theorem get?_slotNumbers (m : OrderedMap String TableShape) (name : String) :
    (slotNumbers m).get? name = (m.get? name).map fun sh => sh.slots.keys := OrderedMap.get?_map ..

/-- The primary key slot that a row fills, if it fills one. -/
def ColumnRow.slotNumber (r : ColumnRow) : List Int := [r.slot].filter (0 < ·)

theorem ColumnRow.filterMap_number?_strokes (r : ColumnRow) : r.strokes.filterMap Stroke.number? = r.slotNumber := by
  unfold strokes slotNumber
  by_cases hpos : 0 < r.slot
  · rw [if_pos hpos, List.filter_cons_of_pos (by simpa using hpos)]
    rfl
  · rw [if_neg hpos, List.filter_cons_of_neg (by simpa using hpos)]
    rfl

/-! ## Steps that fill slots -/

/-- A row fills the slot that it gives. -/
theorem ColumnRow.Step.slotNumbers_eq {r : ColumnRow} (h : r.Step k l) : slotNumbers l.shape =
    (slotNumbers k.shape).enter [] ColumnRow.table (fun ns r => ns ++ r.slotNumber) r := by
  obtain ⟨hfits, rfl⟩ := h
  have hslots : ((slotNumbers k.shape).get? r.table).getD [] =
      ((k.shape.get? r.table).getD .empty).slots.keys := by
    rw [get?_slotNumbers]
    cases k.shape.get? r.table <;> rfl
  show _ = (slotNumbers k.shape).insert r.table (((slotNumbers k.shape).get? r.table).getD [] ++ r.slotNumber)
  rw [hslots, ← r.filterMap_number?_strokes, ← Stroke.keys_slots_foldl_draw hfits]
  exact OrderedMap.map_insert ..

/-- A foreign key keeps every slot, whether it is made or left out. -/
theorem KeyStep.slotNumbers_eq {g : (String × Int) × List ForeignKeyRow} (h : KeyStep g k l) :
    slotNumbers l.shape = slotNumbers k.shape := by
  obtain ⟨-, result, -, rfl⟩ := h
  cases result with
  | ok key => exact OrderedMap.map_update_of_eq (by intro sh; rfl) k.shape _
  | error w => rfl

theorem slotNumbers_stroke {st : Stroke} {name : String} {m n : OrderedMap String TableShape}
    (h : st.Step name m n) (hnumber : st.number? = none) : slotNumbers n = slotNumbers m := by
  obtain ⟨sh, hname, hfits, rfl⟩ := h
  have hkeys := Stroke.keys_slots_draw hfits
  rw [hnumber, Option.toList_none, List.append_nil] at hkeys
  have hslots : (slotNumbers m).get? name = some sh.slots.keys := by
    rw [get?_slotNumbers, hname, Option.map_some]
  rw [slotNumbers, OrderedMap.map_insert, hkeys]
  show (slotNumbers m).insert name sh.slots.keys = slotNumbers m
  rw [← OrderedMap.update_eq_insert hslots fun ns => ns, OrderedMap.update_id]

/-- An index keeps every slot. -/
theorem IndexListing.Step.slotNumbers_eq {g : IndexListing} (h : g.Step k l) :
    slotNumbers l.shape = slotNumbers k.shape := by
  obtain ⟨-, n, hn, rfl⟩ := h
  refine hn.field_eq slotNumbers fun st hst _ _ hstep => slotNumbers_stroke hstep ?_
  rcases List.mem_append.mp hst with hunique | hindex
  · obtain ⟨columns, -, rfl⟩ := List.mem_map.mp hunique
    rfl
  · obtain ⟨p, -, rfl⟩ := List.mem_map.mp hindex
    rfl

/-! ## The whole snapshot -/

/-- The positive slots that the rows of a table give. -/
def tableSlots (rows : List ColumnRow) (table : String) : List Int :=
  ((rows.filter fun r => r.table = table).map ColumnRow.slot).filter (0 < ·)

/-- The slots that rows fill, table by table. -/
def filledSlots (rows : List ColumnRow) : OrderedMap String (List Int) :=
  rows.foldl (OrderedMap.enter [] ColumnRow.table fun ns r => ns ++ r.slotNumber) .empty

theorem get?_filledSlots (rows : List ColumnRow) (table : String) : (filledSlots rows).get? table =
    if (rows.filter fun r => r.table = table) = [] then none else some (tableSlots rows table) := by
  have hslots : ∀ rs : List ColumnRow,
      rs.foldl (fun ns r => ns ++ r.slotNumber) [] = (rs.map ColumnRow.slot).filter (0 < ·) := by
    intro rs
    rw [List.foldl_append_eq_append, List.nil_append, ← List.flatMap_def, List.map_eq_flatMap,
      List.filter_flatMap]
    rfl
  rw [filledSlots, OrderedMap.get?_foldl_enter, OrderedMap.get?_empty, Option.getD_none, hslots]
  rfl

/-- The passes fill the slots that the rows of columns give, and no others. -/
theorem Passes.slotNumbers_eq {a : Answers} (h : Passes a ⟨.empty, []⟩ l) :
    slotNumbers l.shape = filledSlots a.columns := by
  obtain ⟨k₁, k₂, hcolumns, hkeys, hindexes⟩ := h
  calc slotNumbers l.shape
      = slotNumbers k₂.shape := hindexes.field_eq (fun k => slotNumbers k.shape) fun _ _ _ _ h => h.slotNumbers_eq
    _ = slotNumbers k₁.shape := hkeys.field_eq (fun k => slotNumbers k.shape) fun _ _ _ _ h => h.slotNumbers_eq
    _ = filledSlots a.columns :=
        hcolumns.foldl_eq (fun k => slotNumbers k.shape) _ fun _ _ _ _ h => h.slotNumbers_eq

variable {start : Option String} {answers : Answers} {d : Draft}

/-- **A primary key with a gap**: of what an assembly can make, only a table whose rows do not give the slots
from 1 on without a gap is not verified. -/
theorem verify_assemble (h : outcomeOf (assemble start answers) ⟨.empty, []⟩ = (.ok s, d)) :
    (d.catalog.snapshot s).verify = .ok () ↔ ∀ r ∈ (answers.keep start).columns,
      ∃ n, (tableSlots (answers.keep start).columns r.table).Perm (Table.slotsUpTo n) := by
  obtain ⟨⟨m, ws⟩, hpasses, hd, -⟩ := (tracks_assemble start answers).leads _ _ ⟨rfl, rfl⟩ s d h
  have hslots : ∀ name, (m.get? name).map (fun sh => sh.slots.keys) =
      (filledSlots (answers.keep start).columns).get? name := fun name => by
    rw [← hpasses.slotNumbers_eq, get?_slotNumbers]
  rw [hd.verify_eq_ok_iff]
  constructor
  · intro hfilled r hr
    have hname := hslots r.table
    have hne : ((answers.keep start).columns.filter fun q => q.table = r.table) ≠ [] :=
      List.ne_nil_of_mem (List.mem_filter.mpr ⟨hr, by simp⟩)
    rw [get?_filledSlots, if_neg hne, Option.map_eq_some_iff] at hname
    obtain ⟨sh, hsh, hkeys⟩ := hname
    exact hkeys ▸ hfilled r.table sh hsh
  · intro hfilled name sh hsh
    have hname := hslots name
    rw [hsh, Option.map_some, get?_filledSlots] at hname
    split at hname
    next => cases hname
    next hne =>
      obtain ⟨r, hr⟩ := List.exists_mem_of_ne_nil _ hne
      obtain ⟨hmem, htable⟩ := List.mem_filter.mp hr
      obtain ⟨n, hn⟩ := hfilled r hmem
      rw [of_decide_eq_true htable] at hn
      exact ⟨n, (Option.some.inj hname) ▸ hn⟩

end SchemaSync.Rows
