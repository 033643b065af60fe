import SchemaSync.Proofs.Catalog.Failure
import SchemaSync.Proofs.Rows.Sketch

/-!
# The foreign key that rows tell of

What becomes of the rows of one foreign key is a `KeyResult`: the foreign key that they tell of, or the
warning with which it is left out. There is exactly one such result, it depends on nothing but the columns and
primary keys of two tables (`Rows.KeyResult.congr`), and it is what the assembly makes of the rows:
`Rows.tracks_addForeignKey`.
-/

namespace SchemaSync.Rows

open Catalog

variable {s : SnapshotId} {m n : OrderedMap String TableShape} {table : String} {number : Int}
  {first : ForeignKeyRow} {rows rest : List ForeignKeyRow} {key : KeyForm}

/-! ## What rows tell of -/

/-- A row of a foreign key leads to a column of its target: to the one that it names, or to the column of the
primary key at the same place. -/
def IsTarget (sh : TableShape) (place : Nat) (r : ForeignKeyRow) (column : String) : Prop :=
  (r.foreignColumn = some column ∨ r.foreignColumn = none ∧ sh.slots.inOrder[place]? = some column) ∧
    sh.columns.contains column = true

/-- The rows of a foreign key, in order, lead to some columns of their target. -/
def LeadTo (sh : TableShape) (rows : List ForeignKeyRow) (columns : List String) : Prop :=
  List.Forall₂ (fun p column => IsTarget sh p.2 p.1 column) rows.zipIdx columns

/-- The foreign key that rows tell of, in order: it leads from the columns that they name to those that they lead
to, and its actions are those of the first row. -/
structure Tell (m : OrderedMap String TableShape) (table : String) (first : ForeignKeyRow)
    (rest : List ForeignKeyRow) (key : KeyForm) : Prop where
  localColumns : key.localColumns = (first :: rest).map ForeignKeyRow.localColumn
  present : HasColumns m table key.localColumns
  target : key.target = first.target
  foreignColumns : ∃ sh, m.get? first.target = some sh ∧ LeadTo sh (first :: rest) key.foreignColumns
  onUpdate : key.onUpdate.keyword = first.onUpdate
  onDelete : key.onDelete.keyword = first.onDelete

/-- What becomes of the rows of a foreign key, in order: the foreign key, or the warning that it is left out. -/
inductive KeyResult (m : OrderedMap String TableShape) (table : String) (number : Int) :
    List ForeignKeyRow → Except Warning KeyForm → Prop where
  | targetMissing {first : ForeignKeyRow} {rest : List ForeignKeyRow} (htarget : m.get? first.target = none) :
      KeyResult m table number (first :: rest) (.error (.targetMissing first.target number table))
  | columnsMissing {first : ForeignKeyRow} {rest : List ForeignKeyRow} {sh : TableShape}
      (htarget : m.get? first.target = some sh) (hcolumns : ∀ columns, ¬ LeadTo sh (first :: rest) columns) :
      KeyResult m table number (first :: rest) (.error (.targetColumnsMissing number table first.target))
  | unsupported {first : ForeignKeyRow} {rest : List ForeignKeyRow} {key : KeyForm} {v : Violation}
      {vs : List Violation} (htell : Tell m table first rest key) (hrules : key.violations table = v :: vs) :
      KeyResult m table number (first :: rest) (.error (.unsupportedKey number table v))
  | made {first : ForeignKeyRow} {rest : List ForeignKeyRow} {key : KeyForm}
      (htell : Tell m table first rest key) (hrules : key.violations table = []) :
      KeyResult m table number (first :: rest) (.ok key)

/-! ### Names of target columns -/

/-- The names that are looked up for the target columns are those that the rows lead to. -/
theorem targetColumns?_eq_some_iff {target : Table} (place : Nat) {rows : List ForeignKeyRow}
    {columns : List String} : targetColumns? target place rows = some columns ↔
      List.Forall₂ (fun p column => IsTarget target.shape p.2 p.1 column) (rows.zipIdx place) columns := by
  have hcontains : ∀ x, target.columns.contains x = target.shape.columns.contains x := by
    intro x
    rw [Table.shape, OrderedMap.contains, OrderedMap.contains, OrderedMap.get?_map, Option.isSome_map]
  have hkey : target.shape.slots.inOrder = target.primaryKey.map Column.name :=
    OrderedMap.inOrder_map Column.name _
  have hstep : ∀ (place : Nat) (r : ForeignKeyRow) (x : String), IsTarget target.shape place r x ↔
      targetColumn? target place r = some x ∧ target.columns.contains x = true := by
    intro place r x
    unfold IsTarget targetColumn?
    rw [hcontains, hkey, List.getElem?_map]
    cases r.foreignColumn <;> simp
  induction rows generalizing place columns with
  | nil => simp [targetColumns?, eq_comm]
  | cons r rows ih =>
      rw [List.zipIdx_cons, List.forall₂_cons_left_iff, targetColumns?]
      simp only [hstep place r]
      cases hname : targetColumn? target place r with
      | none => simp
      | some x =>
          by_cases hx : target.columns.contains x = true
          · simp only [hx, if_true, Option.map_eq_some_iff, ih, Option.some.injEq]
            constructor
            · rintro ⟨others, hothers, rfl⟩
              exact ⟨x, others, ⟨rfl, hx⟩, hothers, rfl⟩
            · rintro ⟨_, others, ⟨rfl, -⟩, hothers, rfl⟩
              exact ⟨others, hothers, rfl⟩
          · simp only [hx, if_false, Option.some.injEq, Bool.false_eq_true]
            constructor
            · rintro ⟨⟩
            · rintro ⟨_, -, ⟨rfl, hx'⟩, -⟩
              exact absurd hx' hx

theorem leadTo_iff (target : Table) {columns : List String} : LeadTo target.shape rows columns ↔
    targetColumns? target 0 rows = some columns := (targetColumns?_eq_some_iff 0).symm

theorem LeadTo.contains {sh : TableShape} {columns : List String} (h : LeadTo sh rows columns) :
    ∀ x ∈ columns, sh.columns.contains x = true := by
  unfold LeadTo at h
  generalize rows.zipIdx = ps at h
  induction h with
  | nil => exact fun x hx => absurd hx List.not_mem_nil
  | cons hfirst _ ih => exact List.forall_mem_cons.mpr ⟨hfirst.2, ih⟩

/-! ### Only columns count -/

theorem leadTo_congr {sh other : TableShape} (hcolumns : other.columns = sh.columns)
    (hslots : other.slots = sh.slots) (columns : List String) :
    LeadTo other rows columns ↔ LeadTo sh rows columns := by
  unfold LeadTo IsTarget
  rw [hcolumns, hslots]

theorem Tell.congr (htable : SameColumnsAt m n table) (htarget : SameColumnsAt m n first.target)
    (h : Tell m table first rest key) : Tell n table first rest key where
  localColumns := h.localColumns
  present := htable.hasColumns h.present
  target := h.target
  foreignColumns := by
    obtain ⟨sh, hsh, hcolumns⟩ := h.foreignColumns
    obtain ⟨other, hother, hsame, hslots⟩ := htarget.get? hsh
    exact ⟨other, hother, (leadTo_congr hsame hslots _).mpr hcolumns⟩
  onUpdate := h.onUpdate
  onDelete := h.onDelete

/-- What becomes of a foreign key depends on the columns of its two tables only. -/
theorem KeyResult.congr {result : Except Warning KeyForm} (htable : SameColumnsAt m n table)
    (htarget : SameColumnsAt m n first.target) (h : KeyResult m table number (first :: rest) result) :
    KeyResult n table number (first :: rest) result := by
  cases h with
  | targetMissing hnone => exact .targetMissing (htarget.get?_eq_none hnone)
  | columnsMissing hsh hcolumns =>
      obtain ⟨other, hother, hsame, hslots⟩ := htarget.get? hsh
      exact .columnsMissing hother fun columns h => hcolumns columns ((leadTo_congr hsame hslots _).mp h)
  | unsupported htell hrules => exact .unsupported (htell.congr htable htarget) hrules
  | made htell hrules => exact .made (htell.congr htable htarget) hrules

theorem KeyResult.congr_all {result : Except Warning KeyForm} (hsame : SameColumns m n)
    (h : KeyResult m table number rows result) : KeyResult n table number rows result := by
  cases rows with
  | nil => cases h
  | cons first rest => exact h.congr (hsame.table _) (hsame.table _)

/-! ### Nothing is left open -/

theorem LeadTo.unique {sh : TableShape} {columns others : List String} (h : LeadTo sh rows columns)
    (h' : LeadTo sh rows others) : columns = others := by
  refine Relator.RightUnique.forall₂ ?_ h h'
  rintro ⟨r, place⟩ x y ⟨hx, -⟩ ⟨hy, -⟩
  cases hforeign : r.foreignColumn with
  | none =>
      rw [hforeign] at hx hy
      simp only [reduceCtorEq, true_and, false_or] at hx hy
      exact Option.some.inj (hx.symm.trans hy)
  | some name =>
      rw [hforeign] at hx hy
      simp only [Option.some.injEq, reduceCtorEq, false_and, or_false] at hx hy
      exact hx.symm.trans hy

theorem Tell.leadTo {sh : TableShape} (h : Tell m table first rest key) (hsh : m.get? first.target = some sh) :
    LeadTo sh (first :: rest) key.foreignColumns := by
  obtain ⟨other, hother, hcolumns⟩ := h.foreignColumns
  obtain rfl := Option.some.inj (hother.symm.trans hsh)
  exact hcolumns

theorem Tell.unique {other : KeyForm} (h : Tell m table first rest key) (h' : Tell m table first rest other) :
    key = other := by
  have hinj : ∀ {a b : Action}, a.keyword = b.keyword → a = b := by
    intro a b hab
    have hread := congrArg Action.ofKeyword? hab
    rw [Action.ofKeyword?_keyword, Action.ofKeyword?_keyword] at hread
    exact Option.some.inj hread
  obtain ⟨sh, hsh, hcolumns⟩ := h.foreignColumns
  have hlocal := h.localColumns.trans h'.localColumns.symm
  have hforeign := hcolumns.unique (h'.leadTo hsh)
  have htarget := h.target.trans h'.target.symm
  have hupdate := hinj (h.onUpdate.trans h'.onUpdate.symm)
  have hdelete := hinj (h.onDelete.trans h'.onDelete.symm)
  cases key
  cases other
  simp_all only

/-- What becomes of a foreign key is determined by its rows. -/
theorem KeyResult.unique {result other : Except Warning KeyForm} (h : KeyResult m table number rows result)
    (h' : KeyResult m table number rows other) : result = other := by
  have hfound {first rest key} (htell : Tell m table first rest key) : m.get? first.target ≠ none := by
    obtain ⟨sh, hsh, -⟩ := htell.foreignColumns
    rw [hsh]
    exact Option.some_ne_none sh
  cases h with
  | targetMissing hnone =>
      cases h' with
      | targetMissing => rfl
      | columnsMissing hsh => exact absurd (hnone.symm.trans hsh) (Option.some_ne_none _).symm
      | unsupported htell => exact absurd hnone (hfound htell)
      | made htell => exact absurd hnone (hfound htell)
  | columnsMissing hsh hcolumns =>
      cases h' with
      | targetMissing hnone => exact absurd (hnone.symm.trans hsh) (Option.some_ne_none _).symm
      | columnsMissing => rfl
      | unsupported htell => exact absurd (htell.leadTo hsh) (hcolumns _)
      | made htell => exact absurd (htell.leadTo hsh) (hcolumns _)
  | unsupported htell hrules =>
      cases h' with
      | targetMissing hnone => exact absurd hnone (hfound htell)
      | columnsMissing hsh hcolumns => exact absurd (htell.leadTo hsh) (hcolumns _)
      | unsupported htell' hrules' =>
          obtain rfl := htell.unique htell'
          obtain ⟨rfl, -⟩ := List.cons.inj (hrules.symm.trans hrules')
          rfl
      | made htell' hrules' =>
          obtain rfl := htell.unique htell'
          cases hrules.symm.trans hrules'
  | made htell hrules =>
      cases h' with
      | targetMissing hnone => exact absurd hnone (hfound htell)
      | columnsMissing hsh hcolumns => exact absurd (htell.leadTo hsh) (hcolumns _)
      | unsupported htell' hrules' =>
          obtain rfl := htell.unique htell'
          cases hrules.symm.trans hrules'
      | made htell' => rw [htell.unique htell']

/-! ## Entering a key -/

/-- A sketch with what has become of the rows of a foreign key. -/
def Sketch.enter (k : Sketch) (table : String) : Except Warning KeyForm → Sketch
  | .ok key => ⟨k.shape.update table (.addForeignKey key), k.warnings⟩
  | .error w => ⟨k.shape, k.warnings ++ [w]⟩

theorem KeyResult.enter_iff {result : Except Warning KeyForm} (h : KeyResult m table number rows result)
    {k l : Sketch} : (∃ other, KeyResult m table number rows other ∧ l = k.enter table other) ↔
      l = k.enter table result := by
  constructor
  · rintro ⟨other, hother, hl⟩
    rw [h.unique hother]
    exact hl
  · exact fun hl => ⟨result, h, hl⟩

/-- The foreign key that rows ask for, given the names of its target columns. -/
def keyRequest (first : ForeignKeyRow) (rows : List ForeignKeyRow) (names : List String) : KeyRequest where
  localColumns := rows.map ForeignKeyRow.localColumn
  foreignColumns := names
  target := first.target
  onUpdate := first.onUpdate
  onDelete := first.onDelete

theorem spec_keyRequest (first : ForeignKeyRow) (rows : List ForeignKeyRow) (names : List String)
    (target : TableRef) : (⟨target, rows.map fun r => .named r.localColumn, names.map .named, first.onUpdate,
      first.onDelete⟩ : ForeignKeySpec) = (keyRequest first rows names).spec target := by
  unfold KeyRequest.spec keyRequest
  rw [List.map_map]
  rfl

/-- What rows tell of is what they ask for, where the columns that they name are there. -/
theorem tell_iff {sh : TableShape} (htarget : m.get? first.target = some sh) :
    Tell m table first rest key ↔ ∃ names, LeadTo sh (first :: rest) names ∧
      (keyRequest first (first :: rest) names).form? = some key ∧ HasColumns m table key.localColumns := by
  have haction : ∀ (text : String) (a : Action), Action.ofKeyword? text = some a ↔ a.keyword = text :=
    fun text a => ⟨Action.keyword_of_ofKeyword?, fun h => h ▸ Action.ofKeyword?_keyword a⟩
  simp only [KeyRequest.form?_eq_some_iff, haction]
  constructor
  · rintro ⟨hlocal, hpresent, hsame, ⟨other, hother, hnames⟩, hupdate, hdelete⟩
    obtain rfl := Option.some.inj (htarget.symm.trans hother)
    exact ⟨_, hnames, ⟨hupdate, hdelete, hlocal, rfl, hsame⟩, hpresent⟩
  · rintro ⟨names, hnames, ⟨hupdate, hdelete, hlocal, rfl, hsame⟩, hpresent⟩
    exact ⟨hlocal, hpresent, hsame, ⟨sh, htarget, hnames⟩, hupdate, hdelete⟩

/-- A foreign key that is asked for over columns that are there is made, or left out for the first rule that it
breaks. -/
def Tried (r : KeyRequest) (table : String) (number : Int) (k l : Sketch) : Prop :=
  ∃ key, r.form? = some key ∧ HasColumns k.shape table key.localColumns ∧
    HasColumns k.shape key.target key.foreignColumns ∧
    (key.violations table = [] ∧ l = k.enter table (.ok key) ∨
      ∃ v vs, key.violations table = v :: vs ∧ l = k.enter table (.error (.unsupportedKey number table v)))

/-- Where the names of the target columns are known, trying the key is all that is left to be done. -/
theorem tried_iff {k l : Sketch} {sh : TableShape} {names : List String}
    (htarget : k.shape.get? first.target = some sh) (hlead : LeadTo sh (first :: rest) names) :
    Tried (keyRequest first (first :: rest) names) table number k l ↔
      ∃ result, KeyResult k.shape table number (first :: rest) result ∧ l = k.enter table result := by
  constructor
  · rintro ⟨key, hkey, hlocal, -, hrules⟩
    have htell := (tell_iff htarget).mpr ⟨names, hlead, hkey, hlocal⟩
    rcases hrules with ⟨hrules, hl⟩ | ⟨v, vs, hrules, hl⟩
    · exact ⟨_, .made htell hrules, hl⟩
    · exact ⟨_, .unsupported htell hrules, hl⟩
  · rintro ⟨result, hresult, hl⟩
    have hasked {key : KeyForm} (htell : Tell k.shape table first rest key) :
        (keyRequest first (first :: rest) names).form? = some key ∧
          HasColumns k.shape table key.localColumns ∧ HasColumns k.shape key.target key.foreignColumns := by
      obtain ⟨others, hothers, hkey, hlocal⟩ := (tell_iff htarget).mp htell
      obtain rfl := hlead.unique hothers
      exact ⟨hkey, hlocal, _, htell.target ▸ htarget, (htell.leadTo htarget).contains⟩
    cases hresult with
    | targetMissing hnone => exact absurd (hnone.symm.trans htarget) (Option.some_ne_none _).symm
    | columnsMissing hsh hcolumns =>
        obtain rfl := Option.some.inj (htarget.symm.trans hsh)
        exact absurd hlead (hcolumns names)
    | unsupported htell hrules =>
        obtain ⟨hkey, hlocal, hforeign⟩ := hasked htell
        exact ⟨_, hkey, hlocal, hforeign, .inr ⟨_, _, hrules, hl⟩⟩
    | made htell hrules =>
        obtain ⟨hkey, hlocal, hforeign⟩ := hasked htell
        exact ⟨_, hkey, hlocal, hforeign, .inl ⟨hrules, hl⟩⟩

/-- A foreign key that is not made has changed nothing. -/
theorem eq_of_createForeignKey_error {c d : Catalog} {e : EditError} {r : KeyRequest} {u : TableId}
    (hl : c.Linked) (ht : c.tables.Issued t) (hu : c.tables.Issued u)
    (h : outcomeOf (Edit.createForeignKey t (r.spec (.handle u))) c = (.error e, d)) : d = c := by
  have hnamed : ∀ names : List String, ∀ x ∈ names.map ColumnRef.named, x.Issued c := by
    intro names x hx
    obtain ⟨column, -, rfl⟩ := List.mem_map.mp hx
    trivial
  have htarget : (r.spec (.handle u)).target.Issued c := hu
  exact (Edit.atomic_createForeignKey hl ht (Edit.reads_resolveTable hl t htarget) (fun _ hv => hv)
    (hnamed r.localColumns) (hnamed r.foreignColumns) fun _ _ hmade => hmade).eq_of_error h

theorem outcome_attempt_eq {α : Type} {e : Edit α} {d : Draft} {c : Catalog} {x : Except EditError α}
    (h : outcomeOf e d.catalog = (x, c)) : outcomeOf (attempt e) d = (.ok x, { d with catalog := c }) := by
  show (Except.ok (outcomeOf e d.catalog).1, { d with catalog := (outcomeOf e d.catalog).2 }) = _
  rw [h]

/-- A foreign key is tried: it is made, or left out if it breaks a rule. -/
theorem tracks_tryForeignKey (t u : TableId) (r : KeyRequest) :
    Tracks (fun d k => Sketched (DrawsWith s table t) d k ∧ d.catalog.findTable? s r.target = some u)
      (do
        let made ← attempt (Edit.createForeignKey t (r.spec (.handle u)))
        match made with
        | .ok _ => pure ()
        | .error (.violation cause) => warn (.unsupportedKey number table cause)
        | .error e => throw e)
      (Tried r table number) fun _ => Sketched (Catalog.Draws · s) where
  leads := by
    rintro d k ⟨⟨⟨hd, ht⟩, hw⟩, hu⟩ v y hy
    have hl := hd.wellFormed.linked
    rw [outcomeOf_bind] at hy
    rcases hrun : outcomeOf (Edit.createForeignKey t (r.spec (.handle u))) d.catalog with ⟨x | made, c⟩
    · obtain rfl := eq_of_createForeignKey_error hl (hl.table s table t ht).1 (hl.table s r.target u hu).1 hrun
      rw [outcome_attempt_eq hrun] at hy
      cases x with
      | violation cause =>
          cases hy
          obtain ⟨key, vs, hkey, hlocal, hforeign, hrules⟩ := hd.violated_of_createForeignKey ht hu hrun
          exact ⟨_, ⟨key, hkey, hlocal, hforeign, .inr ⟨cause, vs, hrules, rfl⟩⟩, hd, congrArg (· ++ _) hw⟩
      | _ => cases hy
    · rw [outcome_attempt_eq hrun] at hy
      cases hy
      obtain ⟨_, ⟨key, hkey, hfits, rfl⟩, hc, -⟩ :=
        (Draws.tracks_createForeignKey r u).leads d.catalog k.shape ⟨⟨hd, ht⟩, hu⟩ made c hrun
      obtain ⟨hlocal, hforeign, hrules⟩ := KeyForm.fits_iff.mp hfits
      exact ⟨_, ⟨key, hkey, hlocal, hforeign, .inl ⟨hrules, rfl⟩⟩, hc, hw⟩
  allows := by
    rintro d k l ⟨⟨⟨hd, ht⟩, hw⟩, hu⟩ ⟨key, hkey, hlocal, hforeign, hrules⟩
    obtain ⟨-, -, -, -, htarget⟩ := KeyRequest.form?_eq_some_iff.mp hkey
    rw [outcomeOf_bind, KeyRequest.spec_eq hkey]
    rcases hrules with ⟨hrules, rfl⟩ | ⟨v, vs, hrules, rfl⟩
    · obtain ⟨made, c, hrun, -, hc⟩ :=
        hd.createForeignKey ht (htarget ▸ hu) (KeyForm.fits_iff.mpr ⟨hlocal, hforeign, hrules⟩)
      refine ⟨(), { d with catalog := c }, ?_, hc, hw⟩
      rw [outcome_attempt_eq hrun]
      rfl
    · have hrun := hd.createForeignKey_violated ht (htarget ▸ hu) hlocal hforeign hrules
      refine ⟨(), { d with warnings := d.warnings ++ [.unsupportedKey number table v] }, ?_, hd,
        congrArg (· ++ _) hw⟩
      rw [outcome_attempt_eq hrun]
      rfl

def KeyStep (g : (String × Int) × List ForeignKeyRow) (k l : Sketch) : Prop :=
  (∃ sh, k.shape.get? g.1.1 = some sh) ∧
    ∃ result, KeyResult k.shape g.1.1 g.1.2 g.2 result ∧ l = k.enter g.1.1 result

/-- A foreign key is left out. -/
theorem tracks_leaveOut {d : Draft} {k : Sketch} {w : Warning} (hd : Sketched (Catalog.Draws · s) d k)
    (hresult : KeyResult k.shape table number rows (.error w)) :
    Tracks (fun e l => e = d ∧ l = k) (warn w)
      (fun k l => ∃ result, KeyResult k.shape table number rows result ∧ l = k.enter table result)
      fun _ => Sketched (Catalog.Draws · s) := by
  refine ((tracks_warn w).restrict ?_).congr ?_ fun _ _ _ => id
  · rintro _ _ ⟨rfl, rfl⟩
    exact hd
  · rintro _ _ l ⟨rfl, rfl⟩
    exact hresult.enter_iff.symm

theorem tracks_addForeignKey (table : String) (number : Int) (first : ForeignKeyRow) (rest : List ForeignKeyRow) :
    Tracks (Sketched (Catalog.Draws · s)) (addForeignKey s table number (first :: rest))
      (KeyStep ((table, number), first :: rest)) fun _ => Sketched (Catalog.Draws · s) := by
  have hfound := tracks_edit (Draws.tracks_getTable (Catalog.Draws · s) (fun _ _ => id) table)
  unfold addForeignKey
  refine (hfound.bind (Q := fun k l => ∃ result, KeyResult k.shape table number (first :: rest) result ∧
    l = k.enter table result) fun t => ?_).congr (fun d k l _ => ?_) fun _ _ _ => id
  · refine tracks_now_bind fun c => Tracks.of_point fun d k hd => ?_
    obtain ⟨⟨⟨hd, ht⟩, hw⟩, rfl⟩ := hd
    cases hu : d.catalog.findTable? s first.target with
    | none =>
        exact tracks_leaveOut ⟨hd, hw⟩ (.targetMissing (hd.get?_eq_none hu))
    | some u =>
        have htarget : k.shape.get? first.target = some (d.catalog.table u).shape := hd.get?_eq hu
        have hcalled : (d.catalog.table u).name = first.target :=
          (hd.wellFormed.linked.table s first.target u hu).2.2
        refine tracks_now_bind fun c => Tracks.of_point fun d' k' hd' => ?_
        obtain ⟨⟨rfl, rfl⟩, rfl⟩ := hd'
        dsimp only
        cases hnames : targetColumns? (d'.catalog.table u) 0 (first :: rest) with
        | none =>
            rw [hcalled]
            refine tracks_leaveOut ⟨hd, hw⟩ (.columnsMissing htarget fun columns hcolumns => ?_)
            rw [(leadTo_iff _).mp hcolumns] at hnames
            cases hnames
        | some names =>
            have hlead := (leadTo_iff _).mpr hnames
            dsimp only
            rw [spec_keyRequest]
            refine ((tracks_tryForeignKey t u _).restrict ?_).congr ?_ fun _ _ _ => id
            · rintro _ _ ⟨rfl, rfl⟩
              exact ⟨⟨⟨hd, ht⟩, hw⟩, hu⟩
            · rintro _ _ l ⟨rfl, rfl⟩
              exact tried_iff htarget hlead
  · constructor
    · rintro ⟨_, ⟨n, ⟨hname, rfl⟩, rfl⟩, hresult⟩
      exact ⟨hname, hresult⟩
    · rintro ⟨hname, hresult⟩
      exact ⟨k, ⟨k.shape, ⟨hname, rfl⟩, rfl⟩, hresult⟩

end SchemaSync.Rows
