import SchemaSync.Proofs.Catalog.Admission

/-!
# The rules of a foreign key by names

Whether a foreign key keeps its rules is checked on handles. Where its columns are found by their names, the
names tell the same: `KeyForm.violations` lists the rules that it breaks, in the order in which they are
reported. So an edit that is to make a foreign key over columns that are there goes through if this list is
empty, and else fails with its first member (`Catalog.Draws.createForeignKey_violated`); and it is only then
that it fails with a violation (`Catalog.Draws.violated_of_createForeignKey`), for a column or an action that
is not known is another kind of error.
-/

namespace SchemaSync

/-! ## Names that repeat -/

/-- The names that stand a second time in a list, each where it stands again; `seen` are the names before. -/
def repeatedNames (seen : List String) : List String → List String
  | [] => []
  | n :: ns => if n ∈ seen then n :: repeatedNames seen ns else repeatedNames (n :: seen) ns

theorem repeatedNames_eq_nil_iff {names : List String} (seen : List String) :
    repeatedNames seen names = [] ↔ names.Nodup ∧ ∀ n ∈ names, n ∉ seen := by
  induction names generalizing seen with
  | nil => simp [repeatedNames]
  | cons n names ih =>
      rw [repeatedNames, List.nodup_cons, List.forall_mem_cons]
      by_cases hn : n ∈ seen
      · simp [hn]
      · rw [if_neg hn, ih]
        simp only [List.mem_cons, not_or]
        constructor
        · rintro ⟨hnodup, hfresh⟩
          exact ⟨⟨fun hmem => (hfresh n hmem).1 rfl, hnodup⟩, hn, fun x hx => (hfresh x hx).2⟩
        · rintro ⟨⟨hfirst, hnodup⟩, -, hrest⟩
          refine ⟨hnodup, fun x hx => ⟨?_, hrest x hx⟩⟩
          rintro rfl
          exact hfirst hx

theorem repeatedNames_nil_eq_nil_iff {names : List String} : repeatedNames [] names = [] ↔ names.Nodup := by
  simp [repeatedNames_eq_nil_iff]

/-! ## Broken rules -/

/-- The rules that a foreign key of a table breaks, as far as names tell, in the order in which they are
reported. -/
def KeyForm.violations (key : KeyForm) (table : String) : List Violation :=
  (if key.target = table then [.selfReference table] else []) ++
  (if key.foreignColumns = [] then [.noForeignColumns] else []) ++
  (if key.localColumns = [] then [.noLocalColumns] else []) ++
  (if key.foreignColumns.length = key.localColumns.length then [] else [.unevenColumns]) ++
  (repeatedNames [] key.localColumns).map .localRepeats ++
  (repeatedNames [] key.foreignColumns).map .foreignRepeats

variable {m : OrderedMap String TableShape} {name : String}

/-- A foreign key fits exactly if its columns are there and it breaks no rule. -/
theorem KeyForm.fits_iff {key : KeyForm} : key.Fits m name ↔
    HasColumns m name key.localColumns ∧ HasColumns m key.target key.foreignColumns ∧
      key.violations name = [] := by
  unfold violations
  simp only [List.append_eq_nil_iff, unless_eq_nil_iff, when_eq_nil_iff, List.map_eq_nil_iff,
    repeatedNames_nil_eq_nil_iff]
  constructor
  · intro h
    refine ⟨h.localColumns, h.foreignColumns,
      ⟨⟨⟨⟨h.target_ne, h.foreign_ne_nil⟩, fun hnil => ?_⟩, h.length_eq⟩, h.localNodup⟩, h.foreignNodup⟩
    have hlength := h.length_eq
    rw [hnil, List.length_nil, List.length_eq_zero_iff] at hlength
    exact h.foreign_ne_nil hlength
  · rintro ⟨hlocal, hforeign, ⟨⟨⟨⟨hne, hsome⟩, -⟩, hlength⟩, hlocalNodup⟩, hforeignNodup⟩
    exact ⟨hlocal, hforeign, hne, hsome, hlength, hlocalNodup, hforeignNodup⟩

/-! ## Names and identities -/

/-- Two columns of a list have one name exactly if they are the same. -/
def NamesTell (xs : List Column) : Prop := ∀ x ∈ xs, ∀ y ∈ xs, x.id = y.id ↔ x.name = y.name

theorem map_name_repeatedColumns (seen : List Column) {xs : List Column} (htell : NamesTell (seen ++ xs)) :
    (repeatedColumns (seen.map Column.id) xs).map Column.name =
      repeatedNames (columnNames seen) (columnNames xs) := by
  induction xs generalizing seen with
  | nil => rfl
  | cons x xs ih =>
      have hx : x ∈ seen ++ x :: xs := List.mem_append_right _ List.mem_cons_self
      have hsame : x.id ∈ seen.map Column.id ↔ x.name ∈ columnNames seen := by
        rw [columnNames, List.mem_map, List.mem_map]
        exact exists_congr fun y => and_congr_right fun hy => htell y (List.mem_append_left _ hy) x hx
      have hhead : columnNames (x :: xs) = x.name :: columnNames xs := rfl
      rw [hhead, repeatedNames, repeatedColumns]
      by_cases hmem : x.id ∈ seen.map Column.id
      · rw [if_pos (List.contains_iff_mem.mpr hmem), if_pos (hsame.mp hmem), List.map_cons, ih]
        intro y hy z hz
        exact htell y (List.append_subset.mpr ⟨by simp, by simp⟩ hy) z
          (List.append_subset.mpr ⟨by simp, by simp⟩ hz)
      · rw [if_neg fun h => hmem (List.contains_iff_mem.mp h), if_neg fun h => hmem (hsame.mpr h)]
        refine ih (x :: seen) fun y hy z hz => htell y ?_ z ?_
        · exact List.perm_middle.symm.subset hy
        · exact List.perm_middle.symm.subset hz

/-- A foreign key over columns of its two tables breaks the rules that its names break, where names tell
columns and tables apart. -/
theorem ForeignKey.violations_eq {f : ForeignKey} (htarget : f.target = f.owner ↔ f.targetName = f.ownerName)
    (hlocal : ∀ x ∈ f.localColumns, x.owner = f.owner) (hforeign : ∀ x ∈ f.foreignColumns, x.owner = f.target)
    (hlocalNames : NamesTell f.localColumns) (hforeignNames : NamesTell f.foreignColumns) :
    f.violations = f.form.violations f.ownerName := by
  have hpairs : (f.localColumns.zip f.foreignColumns).flatMap f.pairViolations = [] := by
    rw [List.flatMap_eq_nil_iff]
    rintro ⟨x, y⟩ hxy
    obtain ⟨hx, hy⟩ := List.of_mem_zip hxy
    exact ForeignKey.pairViolations_eq_nil_iff.mpr ⟨hforeign y hy, hlocal x hx⟩
  have hrepeats : ∀ (report : String → Violation) {xs : List Column}, NamesTell xs →
      (repeatedColumns [] xs).map (fun x => report x.name) = (repeatedNames [] (columnNames xs)).map report := by
    intro report xs hxs
    have hcomp : (fun x : Column => report x.name) = report ∘ Column.name := rfl
    rw [hcomp, ← List.map_map]
    exact congrArg (List.map report) (map_name_repeatedColumns [] hxs)
  have hempty : ∀ xs : List Column, xs = [] ↔ columnNames xs = [] := fun _ => List.map_eq_nil_iff.symm
  have hlength : ∀ xs : List Column, xs.length = (columnNames xs).length := fun _ => (List.length_map _).symm
  unfold ForeignKey.violations KeyForm.violations
  rw [hpairs, List.append_nil, hrepeats .localRepeats hlocalNames, hrepeats .foreignRepeats hforeignNames]
  simp only [List.isEmpty_iff, htarget, hempty, hlength]
  rfl

namespace Edit

variable {α β : Type} {c d : Catalog} {v : Violation}

/-- An edit that may fail, but not for a broken rule. -/
def BreaksNoRule (e : Edit α) : Prop := ∀ c v d, outcome e c ≠ (.error (.violation v), d)

theorem Reads.bind_violated {P : α → Prop} {e : Edit α} {f : α → Edit β} (he : Reads e c P)
    (hrule : BreaksNoRule e) (h : outcome (e >>= f) c = (.error (.violation v), d)) :
    ∃ a, P a ∧ outcome (f a) c = (.error (.violation v), d) := by
  obtain ⟨r, hr, hP⟩ := he
  rw [outcome_bind, hr] at h
  cases r with
  | error x =>
      obtain ⟨hx, rfl⟩ := Prod.mk.inj h
      rw [Except.error.inj hx] at hr
      exact absurd hr (hrule c v c)
  | ok a => exact ⟨a, hP a rfl, h⟩

theorem breaksNoRule_getColumn (t : TableId) (name : String) : BreaksNoRule (getColumn t name) := by
  intro c v d h
  unfold getColumn at h
  rw [outcome_bind, outcome_get] at h
  cases hfound : c.findColumn? t name with
  | none => simp [hfound] at h
  | some id => simp [hfound] at h

theorem breaksNoRule_action (text : String) : BreaksNoRule (action text) := by
  intro c v d h
  unfold action at h
  cases hfound : Action.ofKeyword? text with
  | none => simp [hfound] at h
  | some a => simp [hfound] at h

theorem breaksNoRule_resolveColumns_named (t : TableId) :
    ∀ names : List String, BreaksNoRule (resolveColumns t (names.map .named))
  | [] => by rintro c v d ⟨⟩
  | n :: names => by
    intro c v d h
    obtain ⟨id, -, h⟩ := (reads_getColumn t n).bind_violated (breaksNoRule_getColumn t n) h
    rw [outcome_bind] at h
    rcases hrest : outcome (resolveColumns t (names.map .named)) c with ⟨e | ids, d'⟩
    · rw [hrest] at h
      obtain ⟨he, rfl⟩ := Prod.mk.inj h
      rw [Except.error.inj he] at hrest
      exact breaksNoRule_resolveColumns_named t names c v d' hrest
    · rw [hrest] at h
      cases h

end Edit

namespace Catalog

variable {c : Catalog} {t : TableId}

theorem Owns.namesTell (hl : c.Linked) {ids : List ColumnId} (h : c.Owns t ids) :
    NamesTell (ids.map c.column) := by
  intro x hx y hy
  obtain ⟨a, ha, rfl⟩ := List.mem_map.mp hx
  obtain ⟨b, hb, rfl⟩ := List.mem_map.mp hy
  obtain ⟨haIssued, haOwner⟩ := h a ha
  obtain ⟨hbIssued, hbOwner⟩ := h b hb
  constructor
  · intro hid
    replace hid : a = b := hid
    rw [hid]
  · exact hl.eq_of_name haIssued hbIssued (haOwner.trans hbOwner.symm)

namespace Draws

open Edit

variable {d : Catalog} {s : SnapshotId} {u : TableId} {key : KeyForm} {v : Violation} {vs : List Violation}

/-- The rules that a foreign key breaks can be told from the names of its columns. -/
theorem violations_resolveForeignKey (h : c.Draws s m) (ht : c.findTable? s name = some t)
    (hu : c.findTable? s key.target = some u) {localIds foreignIds : List ColumnId}
    (hlocal : c.Owns t localIds) (hforeign : c.Owns u foreignIds)
    (hlocalNames : columnNames (localIds.map c.column) = key.localColumns)
    (hforeignNames : columnNames (foreignIds.map c.column) = key.foreignColumns) (k : ForeignKeyId) :
    (c.resolveForeignKey k ⟨t, u, localIds, foreignIds, key.onUpdate, key.onDelete⟩).violations =
      key.violations name := by
  have hl := h.wellFormed.linked
  obtain ⟨-, -, hcalled⟩ := hl.table s name t ht
  obtain ⟨-, -, hucalled⟩ := hl.table s key.target u hu
  have hself : u = t ↔ c.tableName u = c.tableName t := by
    refine ⟨fun hsame => hsame ▸ rfl, fun hsame => ?_⟩
    rw [← hucalled.symm.trans (hsame.trans hcalled)] at ht
    exact Option.some.inj (hu.symm.trans ht)
  have hform : (c.resolveForeignKey k ⟨t, u, localIds, foreignIds, key.onUpdate, key.onDelete⟩).form = key := by
    show KeyForm.mk (columnNames (localIds.map c.column)) (columnNames (foreignIds.map c.column))
      (c.tableName u) key.onUpdate key.onDelete = key
    rw [hlocalNames, hforeignNames]
    exact congrArg (KeyForm.mk key.localColumns key.foreignColumns · key.onUpdate key.onDelete) hucalled
  rw [ForeignKey.violations_eq hself hlocal.resolved hforeign.resolved (hlocal.namesTell hl)
    (hforeign.namesTell hl), hform]
  exact congrArg key.violations hcalled

/-- A foreign key that breaks a rule fails with the first that it breaks. -/
theorem createForeignKey_violated (h : c.Draws s m) (ht : c.findTable? s name = some t)
    (hu : c.findTable? s key.target = some u) (hlocal : HasColumns m name key.localColumns)
    (hforeign : HasColumns m key.target key.foreignColumns) (hkey : key.violations name = v :: vs) :
    outcome (Edit.createForeignKey t (key.spec (.handle u))) c = (.error (.violation v), c) := by
  have hl := h.wellFormed.linked
  obtain ⟨sh, hname, hcolumns⟩ := hlocal
  obtain ⟨other, htarget, hothers⟩ := hforeign
  obtain rfl := h.shapeOf_eq ht hname
  obtain rfl := h.shapeOf_eq hu htarget
  obtain ⟨-, hschema, -⟩ := hl.table s name t ht
  obtain ⟨-, huschema, -⟩ := hl.table s key.target u hu
  obtain ⟨localIds, hlocalIds, hlocalOwns, hlocalNames⟩ := outcome_resolveColumns hl hcolumns
  obtain ⟨foreignIds, hforeignIds, hforeignOwns, hforeignNames⟩ := outcome_resolveColumns hl hothers
  have hviolations := h.violations_resolveForeignKey ht hu hlocalOwns hforeignOwns hlocalNames
    hforeignNames c.foreignKeys.next
  have hfails : (c.resolveForeignKey c.foreignKeys.next
      ⟨t, u, localIds, foreignIds, key.onUpdate, key.onDelete⟩).verify = .error v := by
    rw [ForeignKey.verify, hviolations, hkey]
    rfl
  simp [Edit.createForeignKey, KeyForm.spec, resolveTable, outcome_bind, huschema, hschema, hlocalIds,
    hforeignIds, Edit.action, Action.ofKeyword?_keyword, hfails, check]

/-- A foreign key that fails for a broken rule is over columns that are there, and breaks the rule first. -/
theorem violated_of_createForeignKey (h : c.Draws s m) (ht : c.findTable? s name = some t) {r : KeyRequest}
    (hu : c.findTable? s r.target = some u)
    (hfails : outcome (Edit.createForeignKey t (r.spec (.handle u))) c = (.error (.violation v), d)) :
    ∃ key vs, r.form? = some key ∧ HasColumns m name key.localColumns ∧
      HasColumns m key.target key.foreignColumns ∧ key.violations name = v :: vs := by
  have hl := h.wellFormed.linked
  obtain ⟨-, hschema, -⟩ := hl.table s name t ht
  obtain ⟨-, huschema, -⟩ := hl.table s r.target u hu
  have hrest := hfails
  simp only [Edit.createForeignKey, resolveTable, KeyRequest.spec, pure_bind] at hrest
  rw [outcome_bind, outcome_get] at hrest
  simp only [huschema, hschema, ne_eq, not_true_eq_false, if_false] at hrest
  obtain ⟨localIds, ⟨hlocal, hlocalNames⟩, hrest⟩ :=
    (reads_resolveColumns_named hl).bind_violated (breaksNoRule_resolveColumns_named t _) hrest
  obtain ⟨foreignIds, ⟨hforeign, hforeignNames⟩, hrest⟩ :=
    (reads_resolveColumns_named hl).bind_violated (breaksNoRule_resolveColumns_named u _) hrest
  obtain ⟨onUpdate, hupdate, hrest⟩ :=
    (reads_action r.onUpdate).bind_violated (breaksNoRule_action _) hrest
  obtain ⟨onDelete, hdelete, -⟩ :=
    (reads_action r.onDelete).bind_violated (breaksNoRule_action _) hrest
  have hkey : r.form? = some ⟨r.localColumns, r.foreignColumns, r.target, onUpdate, onDelete⟩ :=
    KeyRequest.form?_eq_some_iff.mpr ⟨hupdate, hdelete, rfl, rfl, rfl⟩
  have hlocals : HasColumns m name r.localColumns :=
    ⟨_, h.get?_eq ht, hlocalNames ▸ hlocal.contains_columns hl⟩
  have hforeigns : HasColumns m r.target r.foreignColumns :=
    ⟨_, h.get?_eq hu, hforeignNames ▸ hforeign.contains_columns hl⟩
  rw [KeyRequest.spec_eq hkey] at hfails
  -- What the look-ups have found is there, so the edit goes through or fails for the first broken rule.
  cases hviolations : KeyForm.violations ⟨r.localColumns, r.foreignColumns, r.target, onUpdate, onDelete⟩ name with
  | nil =>
      obtain ⟨k, c', hmade, -⟩ := h.createForeignKey ht hu (KeyForm.fits_iff.mpr ⟨hlocals, hforeigns, hviolations⟩)
      rw [hmade] at hfails
      cases hfails
  | cons w ws =>
      rw [h.createForeignKey_violated ht hu hlocals hforeigns hviolations] at hfails
      cases hfails
      exact ⟨_, ws, hkey, hlocals, hforeigns, hviolations⟩

end Draws
end Catalog
end SchemaSync
