import SchemaSync.Model.Sample
import SchemaSync.Proofs.Catalog.Restriction
import SchemaSync.Proofs.Model.Consistency

/-!
# Declarations of chosen tables

A start leaves out declarations, and with them the tables that other declarations refer to. So the declarations
that are left describe a schema exactly if the chosen tables are closed under their foreign keys; what they
describe is the restriction of the whole schema then (`Model.schema_restricted_iff`). There is nothing that
leaves a foreign key out, as there is for the rows of a database.
-/

namespace SchemaSync

variable {x : Model} {xs : List Model} {start : Option String} {name : String} {sh : TableShape}

namespace Model

/-! ## Tables without their foreign keys -/

/-- Foreign keys are made in the second pass. -/
theorem foreignKeys_drawing (x : Model) : x.drawing.foreignKeys = [] := by
  unfold drawing
  split
  next sts _ => exact Stroke.foreignKeys_foldl_draw sts .empty
  next => rfl

theorem get?_outline_eq_some_iff (h : xs.Pairwise Apart) : (outline xs).get? name = some sh ↔
    ∃ x ∈ xs, x.tableName = name ∧ x.drawing = sh := by
  rw [← OrderedMap.mem_entries_iff_get?, entries_outline h]
  simp

theorem pairwise_apart_chosen (h : xs.Pairwise Apart) : (chosen start xs).Pairwise Apart := h.filter _

theorem mem_chosen : x ∈ chosen start xs ↔ x ∈ xs ∧ Selection.isChosen start x.tableName = true := List.mem_filter

/-- Chosen tables are as they are among all tables. -/
theorem get?_outline_chosen (h : xs.Pairwise Apart) (hname : Selection.isChosen start name = true) :
    (outline (chosen start xs)).get? name = (outline xs).get? name := by
  ext sh
  rw [get?_outline_eq_some_iff (pairwise_apart_chosen h), get?_outline_eq_some_iff h]
  constructor
  · rintro ⟨x, hx, hsame⟩
    exact ⟨x, (mem_chosen.mp hx).1, hsame⟩
  · rintro ⟨x, hx, rfl, hsame⟩
    exact ⟨x, mem_chosen.mpr ⟨hx, hname⟩, rfl, hsame⟩

/-- Other tables are not there. -/
theorem isChosen_of_get?_outline (h : xs.Pairwise Apart) (hname : (outline (chosen start xs)).get? name = some sh) :
    Selection.isChosen start name = true := by
  obtain ⟨x, hx, rfl, -⟩ := (get?_outline_eq_some_iff (pairwise_apart_chosen h)).mp hname
  exact (mem_chosen.mp hx).2

theorem sameColumnsAt_outline_chosen (h : xs.Pairwise Apart) (hname : Selection.isChosen start name = true) :
    SameColumnsAt (outline xs) (outline (chosen start xs)) name := by
  rw [SameColumnsAt, get?_outline_chosen h hname]

/-! ## Foreign keys of chosen tables -/

/-- The chosen tables are closed under the foreign keys that they declare. -/
def Closed (start : Option String) (xs : List Model) : Prop :=
  ∀ x ∈ chosen start xs, ∀ d ∈ x.references, Selection.isChosen start d.table = true

/-- Of consistent declarations the chosen ones are consistent exactly if they refer to chosen tables only. -/
theorem Consistent.chosen_iff (h : Consistent xs) : Consistent (chosen start xs) ↔ Closed start xs := by
  constructor
  · intro hchosen x hx d hd
    obtain ⟨key, hkey, hfits⟩ := hchosen.references x hx d hd
    obtain ⟨sh, hsh, -⟩ := hfits.foreignColumns
    exact ForeignKeyDeclaration.target_eq hkey ▸ isChosen_of_get?_outline h.apart hsh
  · intro hclosed
    refine ⟨fun x hx => h.drawable x (mem_chosen.mp hx).1, pairwise_apart_chosen h.apart, fun x hx d hd => ?_⟩
    obtain ⟨hmem, hname⟩ := mem_chosen.mp hx
    exact (h.references x hmem d hd).congr (sameColumnsAt_outline_chosen h.apart hname)
      (sameColumnsAt_outline_chosen h.apart (hclosed x hx d hd))

/-- What declarations refer to are the targets of the foreign keys that they describe. -/
theorem Consistent.closed_iff (h : Consistent xs) : Closed start xs ↔
    ∀ name sh, (shapes xs).get? name = some sh → Selection.isChosen start name = true →
      ∀ key ∈ sh.foreignKeys, Selection.isChosen start key.target = true := by
  constructor
  · intro hclosed name sh hsh hname key hkey
    obtain ⟨x, hx, rfl, rfl⟩ := (get?_shapes_eq_some_iff h.apart).mp hsh
    replace hkey : key ∈ x.drawing.foreignKeys ++ x.keys (outline xs) := hkey
    rw [foreignKeys_drawing, List.nil_append] at hkey
    obtain ⟨d, hd, hform⟩ := List.mem_filterMap.mp hkey
    exact ForeignKeyDeclaration.target_eq hform ▸ hclosed x (mem_chosen.mpr ⟨hx, hname⟩) d hd
  · intro htargets x hx d hd
    obtain ⟨hmem, hname⟩ := mem_chosen.mp hx
    obtain ⟨key, hkey, -⟩ := h.references x hmem d hd
    refine ForeignKeyDeclaration.target_eq hkey ▸ htargets _ _ (get?_shapes h.apart hmem) hname key ?_
    exact List.mem_append_right _ (List.mem_filterMap.mpr ⟨d, hd, hkey⟩)

theorem keys_outline_chosen (h : xs.Pairwise Apart) (hclosed : Closed start xs) (hx : x ∈ chosen start xs) :
    x.keys (outline (chosen start xs)) = x.keys (outline xs) := by
  apply List.filterMap_congr
  intro d hd
  rw [(sameColumnsAt_outline_chosen h (hclosed x hx d hd)).request]

/-- The chosen tables lose no foreign key where they are closed. -/
theorem within_drawing (hclosed : Closed start xs) (hx : x ∈ chosen start xs) :
    (x.drawing.addForeignKeys (x.keys (outline xs))).within (Selection.isChosen start) =
      x.drawing.addForeignKeys (x.keys (outline xs)) := by
  have hkeys : ∀ key ∈ x.drawing.foreignKeys ++ x.keys (outline xs), Selection.isChosen start key.target = true := by
    rw [foreignKeys_drawing, List.nil_append]
    intro key hkey
    obtain ⟨d, hd, hform⟩ := List.mem_filterMap.mp hkey
    exact ForeignKeyDeclaration.target_eq hform ▸ hclosed x hx d hd
  exact congrArg (fun keys => { x.drawing with foreignKeys := keys }) (List.filter_eq_self.mpr hkeys)

theorem shapes_chosen (h : xs.Pairwise Apart) (hclosed : Closed start xs) :
    shapes (chosen start xs) = restrict (Selection.isChosen start) (shapes xs) := by
  rw [eq_restrict_iff, keys_shapes h, keys_shapes (pairwise_apart_chosen h)]
  refine ⟨by rw [List.filter_map]; rfl, fun name hname => ?_⟩
  ext sh
  rw [get?_shapes_eq_some_iff (pairwise_apart_chosen h), Option.map_eq_some_iff]
  constructor
  · rintro ⟨x, hx, rfl, rfl⟩
    refine ⟨_, get?_shapes h (mem_chosen.mp hx).1, ?_⟩
    rw [within_drawing hclosed hx, keys_outline_chosen h hclosed hx]
  · rintro ⟨whole, hwhole, rfl⟩
    obtain ⟨x, hx, rfl, rfl⟩ := (get?_shapes_eq_some_iff h).mp hwhole
    have hx := mem_chosen.mpr ⟨hx, hname⟩
    exact ⟨x, hx, rfl, by rw [within_drawing hclosed hx, keys_outline_chosen h hclosed hx]⟩

/-! ## The described schema -/

theorem chosen_none (xs : List Model) : chosen none xs = xs :=
  List.filter_eq_self.mpr fun x _ => Selection.isChosen_none x.tableName

variable {c : Catalog} {s : SnapshotId} {models : List Model}

/-- **Describing the chosen tables is restriction, where they are closed**: where declarations describe a schema, the
chosen ones do so exactly if no chosen table has a foreign key to another one. The schema is the restriction of the
whole one to the chosen tables then. -/
theorem schema_restricted_iff (h : Model.schema none models = .ok (c, s)) (start : Option String) :
    ((∃ c' s', Model.schema start models = .ok (c', s')) ↔
      ∀ name sh, (c.snapshot s).shape.get? name = some sh → Selection.isChosen start name = true →
        ∀ key ∈ sh.foreignKeys, Selection.isChosen start key.target = true) ∧
    ∀ c' s', Model.schema start models = .ok (c', s') →
      (c'.snapshot s').shape = restrict (Selection.isChosen start) (c.snapshot s).shape := by
  obtain ⟨hconsistent, hdraws⟩ := draws_schema h
  rw [chosen_none] at hconsistent hdraws
  rw [hdraws.shape]
  refine ⟨?_, fun c' s' h' => ?_⟩
  · rw [schema_eq_ok_iff, hconsistent.chosen_iff, hconsistent.closed_iff]
  · obtain ⟨hchosen, hdraws'⟩ := draws_schema h'
    rw [hdraws'.shape, shapes_chosen hconsistent.apart (hconsistent.chosen_iff.mp hchosen)]

/-- Readers refer to nothing, so they can be described without loans. -/
theorem schema_restricted_iff_readers : ∃ c s c' s', Model.schema none Sample.lending = .ok (c, s) ∧
    Model.schema (some "readers") Sample.lending = .ok (c', s') ∧
      (∀ name sh, (c.snapshot s).shape.get? name = some sh → Selection.isChosen (some "readers") name = true →
        ∀ key ∈ sh.foreignKeys, Selection.isChosen (some "readers") key.target = true) ∧
      (c'.snapshot s').shape = restrict (Selection.isChosen (some "readers")) (c.snapshot s).shape := by
  obtain ⟨c, s, h⟩ : ∃ c s, Model.schema none Sample.lending = .ok (c, s) := ⟨_, _, by cbv⟩
  obtain ⟨c', s', h'⟩ : ∃ c' s', Model.schema (some "readers") Sample.lending = .ok (c', s') := ⟨_, _, by cbv⟩
  obtain ⟨hiff, hshape⟩ := schema_restricted_iff h (some "readers")
  exact ⟨c, s, c', s', h, h', hiff.mp ⟨c', s', h'⟩, hshape c' s' h'⟩

/-- Loans refer to readers, so they cannot be described without them. -/
theorem schema_fails_loans : (∃ c s, Model.schema none Sample.lending = .ok (c, s)) ∧
    Model.schema (some "loans") Sample.lending = .error (.edit (.noTable "readers")) :=
  ⟨⟨_, _, by cbv⟩, by cbv⟩

end Model
end SchemaSync
