import SchemaSync.Proofs.Catalog.Restriction
import SchemaSync.Proofs.Rows.Passes

/-!
# Rows of chosen tables

Leaving out the rows of some tables restricts the snapshot to the other ones. Each of the three passes goes
through without these rows: a row, a foreign key or an index of a table that is kept makes of the restricted
shape the restriction of what it made, and one of another table does not count (`Rows.Passes.restrict`). The
one thing that is new is a foreign key of a kept table to another one: its target is missing now, so it is
left out with a warning, and with one only (`Rows.Passes.count_targetMissing`).
-/

namespace SchemaSync.Rows

open Catalog

variable {s : SnapshotId} {keep : String → Bool} {a : Answers} {k l k' : Sketch} {os : List KeyOutcome}

/-- The shape of a sketch is the restriction of that of another one to the kept tables. -/
def Restricted (keep : String → Bool) (k k' : Sketch) : Prop := k'.shape = restrict keep k.shape

/-! ## One step -/

/-- A row of a kept table is entered on the kept tables. -/
theorem ColumnRow.Step.restrict {r : ColumnRow} (h : r.Step k l) (hkeep : keep r.table = true)
    (hk : Restricted keep k k') :
    ∃ l', r.Step k' l' ∧ Restricted keep l l' := by
  obtain ⟨hfits, rfl⟩ := h
  unfold Restricted at hk ⊢
  have hname : (k'.shape.get? r.table).getD .empty = ((k.shape.get? r.table).getD .empty).within keep := by
    rw [hk, get?_restrict _ hkeep]
    cases k.shape.get? r.table <;> rfl
  refine ⟨_, ⟨hname ▸ Stroke.fitAll_within.mpr hfits, rfl⟩, ?_⟩
  show k'.shape.insert r.table (ColumnRow.stroked ((k'.shape.get? r.table).getD .empty) r) =
    SchemaSync.restrict keep (k.shape.insert r.table (ColumnRow.stroked ((k.shape.get? r.table).getD .empty) r))
  rw [hname, hk, restrict_insert_of_keep _ _ hkeep, ColumnRow.stroked, Stroke.foldl_draw_within]
  rfl

theorem ColumnRow.Step.restrict_eq {r : ColumnRow} (h : r.Step k l) (hkeep : keep r.table = false) :
    SchemaSync.restrict keep l.shape = SchemaSync.restrict keep k.shape := by
  obtain ⟨-, rfl⟩ := h
  exact restrict_insert_of_not_keep _ _ hkeep

/-- The rows of a foreign key of a kept table come to their result there, if their target is kept as well; else the
target is missing. -/
theorem KeyStep.restrict {g : (String × Int) × List ForeignKeyRow} (h : KeyStep g k l) (hkeep : keep g.1.1 = true)
    (hk : Restricted keep k k') :
    ∃ l', KeyStep g k' l' ∧ Restricted keep l l' := by
  unfold Restricted at hk ⊢
  obtain ⟨⟨table, number⟩, rows⟩ := g
  obtain ⟨hname, result, hresult, rfl⟩ := h
  replace hkeep : keep table = true := hkeep
  have hname' : ∃ sh, k'.shape.get? table = some sh := hk ▸ (exists_get?_restrict hkeep).mpr hname
  have hsame {name : String} (hname : keep name = true) : SameColumnsAt k.shape k'.shape name :=
    hk ▸ sameColumnsAt_restrict k.shape hname
  -- What the result changes is restricted with the rest.
  have hshape {other : Except Warning KeyForm}
      (hother : other.toOption.toList = result.toOption.toList.filter fun key => keep key.target) :
      (k'.enter table other).shape = SchemaSync.restrict keep (k.enter table result).shape := by
    have hleft := shape_enter k' ⟨table, number, other⟩
    have hright := shape_enter k ⟨table, number, result⟩
    dsimp only [KeyOutcome.key?] at hleft hright
    rw [hleft, hright, restrict_update_addForeignKeys _ _ hkeep, hother, hk]
  cases rows with
  | nil => cases hresult
  | cons first rest =>
      have htargets : ∀ key ∈ result.toOption.toList, key.target = first.target := by
        intro key hkey
        cases hresult with
        | made htell => exact List.mem_singleton.mp hkey ▸ htell.target
        | _ => cases hkey
      cases htarget : keep first.target with
      | true =>
          refine ⟨_, ⟨hname', result, hresult.congr (hsame hkeep) (hsame htarget), rfl⟩, hshape ?_⟩
          exact (List.filter_eq_self.mpr fun key hkey => htargets key hkey ▸ htarget).symm
      | false =>
          have hmissing : k'.shape.get? first.target = none := hk ▸ get?_restrict_eq_none k.shape htarget
          refine ⟨_, ⟨hname', _, .targetMissing hmissing, rfl⟩, hshape ?_⟩
          refine (List.filter_eq_nil_iff.mpr fun key hkey => ?_).symm
          rw [htargets key hkey, htarget]
          exact Bool.false_ne_true

theorem KeyStep.restrict_eq {g : (String × Int) × List ForeignKeyRow} (h : KeyStep g k l)
    (hkeep : keep g.1.1 = false) : SchemaSync.restrict keep l.shape = SchemaSync.restrict keep k.shape := by
  obtain ⟨-, result, -, rfl⟩ := h
  cases result with
  | ok key => exact restrict_update_of_not_keep k.shape _ hkeep
  | error w => rfl

/-- An index of a kept table is entered on the kept tables. -/
theorem IndexListing.Step.restrict {g : IndexListing} (h : g.Step k l) (hkeep : keep g.table = true)
    (hk : Restricted keep k k') :
    ∃ l', g.Step k' l' ∧ Restricted keep l l' := by
  unfold Restricted at hk ⊢
  obtain ⟨hname, n, hn, rfl⟩ := h
  have hstrokes : g.strokes ((k'.shape.get? g.table).getD .empty) =
      g.strokes ((k.shape.get? g.table).getD .empty) := by
    rw [hk, get?_restrict _ hkeep]
    cases k.shape.get? g.table <;> rfl
  refine ⟨_, ⟨fun hsought => hk ▸ (exists_get?_restrict hkeep).mpr (hname hsought), _, ?_, rfl⟩, rfl⟩
  rw [hstrokes, hk]
  exact Stroke.moves_restrict hn hkeep

theorem IndexListing.Step.restrict_eq {g : IndexListing} (h : g.Step k l) (hkeep : keep g.table = false) :
    SchemaSync.restrict keep l.shape = SchemaSync.restrict keep k.shape := by
  obtain ⟨-, n, hn, rfl⟩ := h
  exact Stroke.moves_restrict_eq hn hkeep

/-! ## All rows -/

def Answers.only (keep : String → Bool) (a : Answers) : Answers where
  columns := a.columns.filter fun r => keep r.table
  foreignKeys := a.foreignKeys.filter fun r => keep r.table
  indexes := a.indexes.filter fun r => keep r.table

/-- A start chooses among the rows that are kept without one. -/
theorem keep_eq_only (start : Option String) (a : Answers) :
    a.keep start = (a.keep none).only (Selection.isChosen start) := by
  have hkept : ∀ table, isKept start table = (Selection.isChosen start table && isKept none table) := by
    intro table
    rw [isKept, isKept, Selection.isChosen_none, Bool.and_true, Bool.and_comm]
  simp only [Answers.keep, Answers.only, List.filter_filter, hkept]

/-- A pass goes through without the members for other tables, if each step for a kept table can be restricted and no
other step counts. -/
theorem moves_restrict {γ : Type} {R : γ → Sketch → Sketch → Prop} {table : γ → String} {gs : List γ}
    (hkept : ∀ g k l k', R g k l → keep (table g) = true → Restricted keep k k' →
      ∃ l', R g k' l' ∧ Restricted keep l l')
    (hleft : ∀ g k l, R g k l → keep (table g) = false →
      SchemaSync.restrict keep l.shape = SchemaSync.restrict keep k.shape)
    (h : Moves R gs k l) (hk : Restricted keep k k') :
    ∃ l', Moves R (gs.filter fun g => keep (table g)) k' l' ∧ Restricted keep l l' := by
  refine h.filter (fun g _ hkeep m n k hstep hm => ?_) (fun g _ hkeep m n k hstep hm => ?_) hk
  · exact hkept g m n k hstep hkeep hm
  · exact hm.trans (hleft g m n hstep hkeep).symm

theorem keyGroups_filter (keep : String → Bool) (rows : List ForeignKeyRow) :
    keyGroups (rows.filter fun r => keep r.table) = (keyGroups rows).filter fun g => keep g.1.1 :=
  orderedGroups_filter (fun name : String × Int => keep name.1) rows

theorem listings_filter (keep : String → Bool) (rows : List IndexRow) :
    listings (rows.filter fun r => keep r.table) = (listings rows).filter fun g => keep g.table := by
  rw [listings, listings, List.filter_map]
  exact congrArg _ (orderedGroups_filter (fun name : String × String => keep name.1) rows)

/-- **Without the rows of other tables** the passes go through as well, and come to the restriction of what they came
to. -/
theorem Passes.restrict (h : Passes a k l) (hk : Restricted keep k k') :
    ∃ l', Passes (a.only keep) k' l' ∧ Restricted keep l l' := by
  obtain ⟨k₁, k₂, hcolumns, hkeys, hindexes⟩ := h
  obtain ⟨l₁, hcolumns', hl₁⟩ := moves_restrict
    (fun _ _ _ _ h => h.restrict) (fun _ _ _ h => h.restrict_eq) hcolumns hk
  obtain ⟨l₂, hkeys', hl₂⟩ := moves_restrict
    (fun _ _ _ _ h => h.restrict) (fun _ _ _ h => h.restrict_eq) hkeys hl₁
  obtain ⟨l', hindexes', hl'⟩ := moves_restrict
    (fun _ _ _ _ h => h.restrict) (fun _ _ _ h => h.restrict_eq) hindexes hl₂
  refine ⟨l', ⟨l₁, l₂, hcolumns', ?_, ?_⟩, hl'⟩
  · exact keyGroups_filter keep a.foreignKeys ▸ hkeys'
  · exact listings_filter keep a.indexes ▸ hindexes'

/-! ## Foreign keys that are dropped -/

/-- The foreign key that a warning is about, by its table and its number there. -/
def Warning.key? : Warning → Option (String × Int)
  | .targetMissing _ number table | .targetColumnsMissing number table _ | .unsupportedKey number table _ =>
      some (table, number)
  | .unknownType _ | .expressionIndex _ _ => none

/-- A foreign key is left out with a warning about itself. -/
theorem KeyResult.key?_warning {m : OrderedMap String TableShape} {table : String} {number : Int}
    {rows : List ForeignKeyRow} {w : Warning} (h : KeyResult m table number rows (.error w)) :
    w.key? = some (table, number) := by
  cases h <;> rfl

/-- A foreign key that is made leads to the target of its rows. -/
theorem KeyResult.target_eq {m : OrderedMap String TableShape} {table : String} {number : Int}
    {rows : List ForeignKeyRow} {key : KeyForm} (h : KeyResult m table number rows (.ok key)) :
    ∃ first rest, rows = first :: rest ∧ key.target = first.target := by
  cases h with
  | made htell => exact ⟨_, _, rfl, htell.target⟩

/-- Rows of other tables make no table. -/
theorem get?_columnShapes_only {name : String} (a : Answers) (hkeep : keep name = false) :
    (columnShapes (a.only keep).columns).get? name = none := by
  rw [get?_columnShapes, if_pos]
  show (a.columns.filter fun r => keep r.table).filter _ = []
  rw [List.filter_filter, List.filter_eq_nil_iff]
  intro r _
  by_cases hname : r.table = name
  · simp [hname, hkeep]
  · simp [hname]

/-- The warnings about foreign keys are those of their results. -/
theorem Passes.filter_warnings (hos : Accounts a os) (hw : l.warnings = a.columns.flatMap ColumnRow.warnings ++
      os.filterMap KeyOutcome.warning? ++ (listings a.indexes).filterMap IndexListing.warning?)
    (name : String × Int) : (l.warnings.filter fun w => w.key? = some name) =
      (os.filter fun o => o.name = name).filterMap KeyOutcome.warning? := by
  have hcolumns : (a.columns.flatMap ColumnRow.warnings).filter (fun w => w.key? = some name) = [] := by
    rw [List.filter_eq_nil_iff]
    intro w hw
    obtain ⟨r, -, hr⟩ := List.mem_flatMap.mp hw
    unfold ColumnRow.warnings at hr
    split at hr
    next => cases hr
    next => simp [List.mem_singleton.mp hr, Warning.key?]
  have hindexes : ((listings a.indexes).filterMap IndexListing.warning?).filter (fun w => w.key? = some name) = [] := by
    rw [List.filter_eq_nil_iff]
    intro w hw
    obtain ⟨g, -, hg⟩ := List.mem_filterMap.mp hw
    unfold IndexListing.warning? at hg
    split at hg
    next =>
      obtain rfl := Option.some.inj hg
      simp [Warning.key?]
    next => cases hg
  rw [hw, List.filter_append, List.filter_append, hcolumns, hindexes, List.nil_append, List.append_nil,
    List.filter_filterMap, List.filterMap_filter]
  apply List.filterMap_congr
  intro o ho
  obtain ⟨g, -, -, hresult⟩ := exists_mem_of_forall₂ hos o ho
  unfold KeyOutcome.warning?
  cases hr : o.result with
  | ok key => simp
  | error w =>
      rw [hr] at hresult
      have hkey : w.key? = some o.name := hresult.key?_warning
      by_cases hname : o.name = name <;> simp [hkey, hname]

/-- **A dropped foreign key is told of once**: where its table is kept and its target is not, there is one warning
about it, which says that its target is missing. -/
theorem Passes.filter_warnings_dropped (h : Passes (a.only keep) ⟨.empty, []⟩ l) (hos : Accounts a os)
    {o : KeyOutcome} (ho : o ∈ os) {key : KeyForm} (hkey : o.key? = some key) (htable : keep o.table = true)
    (htarget : keep key.target = false) :
    (l.warnings.filter fun w => w.key? = some o.name) = [.targetMissing key.target o.number o.table] := by
  obtain ⟨os', hos', -, hwarnings⟩ := h.accounts
  -- The rows of the key are among the kept ones, and come to another result there.
  obtain ⟨g, hg, hname, hresult⟩ := exists_mem_of_forall₂ hos o ho
  have hg' : g ∈ keyGroups (a.only keep).foreignKeys := by
    refine keyGroups_filter keep a.foreignKeys ▸ List.mem_filter.mpr ⟨hg, ?_⟩
    rw [← hname]
    exact htable
  obtain ⟨o', ho', hname', hresult'⟩ := exists_mem_of_forall₂ (List.Forall₂.flip hos') g hg'
  have hok : o.result = .ok key := by
    unfold KeyOutcome.key? at hkey
    cases hr : o.result with
    | ok other =>
        rw [hr] at hkey
        exact congrArg _ (Option.some.inj hkey)
    | error w =>
        rw [hr] at hkey
        cases hkey
  rw [hok] at hresult
  obtain ⟨first, rest, hrows, hsame⟩ := hresult.target_eq
  have hmissing : o'.result = .error (.targetMissing first.target o'.number o'.table) := by
    rw [hrows] at hresult'
    exact hresult'.unique (.targetMissing (get?_columnShapes_only a (hsame ▸ htarget)))
  have hwarning : o'.warning? = some (.targetMissing key.target o.number o.table) := by
    obtain ⟨htable', hnumber'⟩ := Prod.mk.inj (hname'.trans hname.symm)
    rw [KeyOutcome.warning?, hmissing, hsame, htable', hnumber']
  have hnodup : (os'.map KeyOutcome.name).Nodup := hos'.names ▸ nodup_groupKeys _
  rw [Passes.filter_warnings hos' hwarnings, hname, ← hname', OrderedMap.filter_key_of_mem hnodup ho',
    List.filterMap_cons_some hwarning, List.filterMap_nil]

/-! ## Assembling the rows of chosen tables -/

/-- What is assembled with a start is the restriction of what is assembled without one, and every foreign key that is
dropped is told of once. -/
theorem restrict_assemble {d : Draft} (h : outcomeOf (assemble none a) ⟨.empty, []⟩ = (.ok s, d))
    (start : Option String) : ∃ s' d', outcomeOf (assemble start a) ⟨.empty, []⟩ = (.ok s', d') ∧
      (d'.catalog.snapshot s').shape = restrict (Selection.isChosen start) (d.catalog.snapshot s).shape ∧
      ∃ os, Accounts (a.keep none) os ∧
        (∀ table sh, (d.catalog.snapshot s).shape.get? table = some sh →
          sh.foreignKeys = KeyOutcome.keysOn os table) ∧
        ∀ o ∈ os, ∀ key ∈ o.key?, Selection.isChosen start o.table = true →
          Selection.isChosen start key.target = false →
          (d'.warnings.filter fun w => w.key? = some o.name) = [.targetMissing key.target o.number o.table] := by
  obtain ⟨l, hpasses, hdraws, hwarnings⟩ := (tracks_assemble none a).leads _ _ ⟨rfl, rfl⟩ s d h
  obtain ⟨l', hpasses', hrestricted⟩ :=
    hpasses.restrict (rfl : Restricted (Selection.isChosen start) ⟨.empty, []⟩ ⟨.empty, []⟩)
  obtain ⟨s', d', hrun, hdraws', hwarnings'⟩ := (tracks_assemble start a).allows _ _ _ ⟨rfl, rfl⟩
    (keep_eq_only start a ▸ hpasses')
  obtain ⟨os, hos, hkeys, -⟩ := hpasses.accounts
  refine ⟨s', d', hrun, ?_, os, hos, fun table sh hsh => ?_, fun o ho key hkey htable htarget => ?_⟩
  · rw [hdraws'.shape, hdraws.shape]
    exact hrestricted
  · exact hkeys table sh (hdraws.shape ▸ hsh)
  · rw [hwarnings']
    exact hpasses'.filter_warnings_dropped hos ho hkey htable htarget

end SchemaSync.Rows
