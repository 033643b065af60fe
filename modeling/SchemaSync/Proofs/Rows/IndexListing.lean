import SchemaSync.Proofs.Rows.Groups
import SchemaSync.Proofs.Rows.Sketch

/-!
# Indexes from rows

The rows of one index, in order, list it: where it comes from, whether it is unique, and its columns, unless
one of them is an expression. A listed index is entered stroke by stroke (`Rows.IndexListing.Step`), as a
unique constraint unless there is one over the same columns, and as an index if a statement made it. On
tables that are bare at first, what has been entered can be read off the list (`Rows.entered`), and a list
goes through unless an index that is to be a constraint repeats a column: `Rows.moves_listings_iff`.

The main statement is `Rows.indexes_entered_iff`.
-/

namespace SchemaSync.Rows

open Catalog

variable {s : SnapshotId} {m n : OrderedMap String TableShape} {sh : TableShape} {table index : String}

/-! ## Listed indexes -/

/-- The columns of an index are known if all its rows name theirs. -/
theorem indexedColumns?_eq_some_iff {rows : List IndexRow} {names : List String} :
    indexedColumns? rows = some names ↔ rows.map IndexRow.column = names.map some := by
  induction rows generalizing names with
  | nil => cases names <;> simp [indexedColumns?]
  | cons r rows ih =>
      rw [indexedColumns?, List.map_cons]
      cases hcolumn : r.column with
      | none => cases names <;> simp
      | some name =>
          dsimp only
          rw [Option.map_eq_some_iff]
          cases names with
          | nil => simp
          | cons other names =>
              simp only [ih, List.cons.injEq, List.map_cons, Option.some.injEq]
              grind

theorem hasUnique_iff {t : Table} {columns : List String} :
    hasUnique t columns = true ↔ columns ∈ t.shape.uniques := by
  unfold hasUnique
  rw [List.any_eq_true, Table.shape, List.mem_map]
  exact exists_congr fun u => and_congr_right fun _ => beq_iff_eq

/-- An index as its rows list it: the flag is 0 where it is not unique, and there are no columns where one of them
is an expression. -/
structure IndexListing where
  table : String
  index : String
  origin : String
  flag : Int
  columns : Option (List String)

/-- The first row tells of the whole index, and each row of one column. No rows list what a primary key does:
nothing that is entered. -/
def IndexListing.ofRows (table index : String) (rows : List IndexRow) : IndexListing where
  table
  index
  origin := (rows.head?.map IndexRow.origin).getD "pk"
  flag := (rows.head?.map IndexRow.unique).getD 0
  columns := indexedColumns? rows

namespace IndexListing

def unique? (g : IndexListing) : Option (List String) :=
  if g.origin ≠ "pk" ∧ g.flag ≠ 0 then g.columns else none

def index? (g : IndexListing) : Option (List String × Bool) :=
  if g.origin = "c" ∧ Selection.startsWith g.index "sqlite_autoindex" = false then
    g.columns.map fun columns => (columns, g.flag == 1)
  else none

def warning? (g : IndexListing) : Option Warning :=
  if g.origin ≠ "pk" ∧ g.columns = none then some (.expressionIndex g.index g.table) else none

/-- An index that is to be a unique constraint names a column twice. -/
def Repeats (g : IndexListing) : Prop := ∃ columns, g.unique? = some columns ∧ ¬ columns.Nodup

/-- Two listed indexes do not make indexes of one name. -/
def Apart (g h : IndexListing) : Prop := g.index?.isSome = true → h.index?.isSome = true → g.index ≠ h.index

/-- The table of an index is looked up, unless the index is left out. -/
def IsSought (g : IndexListing) : Prop := g.origin ≠ "pk" ∧ ∃ columns, g.columns = some columns

def uniqueStrokes (g : IndexListing) (sh : TableShape) : List Stroke :=
  (g.unique?.toList.filter fun columns => columns ∉ sh.uniques).map .unique

def indexStrokes (g : IndexListing) : List Stroke :=
  g.index?.toList.map fun p => .index g.index p.1 p.2

def strokes (g : IndexListing) (sh : TableShape) : List Stroke := g.uniqueStrokes sh ++ g.indexStrokes

theorem uniqueStrokes_eq {g : IndexListing} {columns : List String} (hkey : g.origin ≠ "pk")
    (hcolumns : g.columns = some columns) (sh : TableShape) : g.uniqueStrokes sh =
      if g.flag ≠ 0 ∧ columns ∉ sh.uniques then [.unique columns] else [] := by
  unfold uniqueStrokes unique?
  by_cases hflag : g.flag = 0
  · simp [hflag]
  · by_cases hnew : columns ∈ sh.uniques <;> simp [hkey, hcolumns, hflag, hnew]

theorem indexStrokes_eq {g : IndexListing} {columns : List String} (hcolumns : g.columns = some columns) :
    g.indexStrokes = if g.origin = "c" ∧ Selection.startsWith g.index "sqlite_autoindex" = false then
      [.index g.index columns (g.flag == 1)] else [] := by
  unfold indexStrokes index?
  split <;> simp [hcolumns]

/-- Rows that name different columns do not make an index that repeats one. -/
theorem not_repeats_ofRows {rows ordered : List IndexRow} (hperm : ordered.Perm rows)
    (hapart : (rows.map IndexRow.column).Nodup) : ¬ (ofRows table index ordered).Repeats := by
  rintro ⟨columns, hunique, hrepeats⟩
  unfold unique? at hunique
  split at hunique
  next =>
    have hlisted : ordered.map IndexRow.column = columns.map some := indexedColumns?_eq_some_iff.mp hunique
    have hnodup := (hperm.map IndexRow.column).nodup_iff.mpr hapart
    rw [hlisted] at hnodup
    exact hrepeats (List.Nodup.of_map _ hnodup)
  next => cases hunique

/-- An index that is left out has no strokes. -/
theorem strokes_eq_nil {g : IndexListing} (h : ¬ g.IsSought) (sh : TableShape) : g.strokes sh = [] := by
  unfold strokes uniqueStrokes indexStrokes unique? index?
  by_cases hkey : g.origin = "pk"
  · simp [hkey]
  · cases hcolumns : g.columns with
    | none => simp
    | some columns => exact absurd ⟨hkey, columns, hcolumns⟩ h

/-- A listed index is entered, or left out with or without a warning. -/
def Step (g : IndexListing) (k l : Sketch) : Prop :=
  (g.IsSought → ∃ sh, k.shape.get? g.table = some sh) ∧
    ∃ n, Moves (Stroke.Step g.table) (g.strokes ((k.shape.get? g.table).getD .empty)) k.shape n ∧
      l = ⟨n, k.warnings ++ g.warning?.toList⟩

end IndexListing

/-- The strokes of the index itself. -/
theorem tracks_enterIndex (t : TableId) (g : IndexListing) {columns : List String}
    (hcolumns : g.columns = some columns) :
    Tracks (Sketched (DrawsWith s g.table t))
      (if g.origin == "c" && !Selection.startsWith g.index "sqlite_autoindex" then do
        let _ ← edit (Edit.createIndex t g.index (columns.map .named) (g.flag == 1))
      else pure ())
      (Redraws (Moves (Stroke.Step g.table) g.indexStrokes)) fun _ => Sketched (Catalog.Draws · s) := by
  rw [IndexListing.indexStrokes_eq hcolumns]
  by_cases hmade : g.origin = "c" ∧ Selection.startsWith g.index "sqlite_autoindex" = false
  · rw [if_pos (by simp [hmade]), if_pos hmade, moves_singleton]
    exact (tracks_edit (Draws.tracks_createIndex _ _ _)).discard.congr (fun _ _ _ _ => Iff.rfl)
      fun _ _ _ h => ⟨h.1.1, h.2⟩
  · rw [if_neg (by simpa using hmade), if_neg hmade]
    show Tracks _ _ (Redraws fun m n => n = m) _
    rw [redraws_eq]
    exact (tracks_pure ()).congr (fun _ _ _ _ => Iff.rfl) fun _ _ _ h => ⟨h.1.1, h.2⟩

/-- The strokes of an index that is not left out. -/
theorem tracks_enterListing (t : TableId) (g : IndexListing) {columns : List String} (hkey : g.origin ≠ "pk")
    (hcolumns : g.columns = some columns) :
    Tracks (Sketched (DrawsWith s g.table t)) (do
        if g.flag ≠ 0 && !hasUnique ((← now).table t) columns then
          let _ ← edit (Edit.createUnique t (columns.map .named))
        if g.origin == "c" && !Selection.startsWith g.index "sqlite_autoindex" then
          let _ ← edit (Edit.createIndex t g.index (columns.map .named) (g.flag == 1)))
      (Redraws fun m n => Moves (Stroke.Step g.table) (g.strokes ((m.get? g.table).getD .empty)) m n)
      fun _ => Sketched (Catalog.Draws · s) := by
  refine tracks_now_bind fun c => Tracks.of_point fun d k hd => ?_
  obtain ⟨⟨hd, hw⟩, rfl⟩ := hd
  have hname : (k.shape.get? g.table).getD .empty = (d.catalog.table t).shape := by
    rw [hd.1.get?_eq hd.2]
    rfl
  have hindex : Tracks (Sketched (DrawsWith s g.table t)) _ _ fun _ => Sketched (Catalog.Draws · s) :=
    tracks_enterIndex t g hcolumns
  have hcheck : (g.flag ≠ 0 && !hasUnique (d.catalog.table t) columns) = true ↔
      g.flag ≠ 0 ∧ columns ∉ (d.catalog.table t).shape.uniques := by
    rw [← hasUnique_iff]
    simp
  have hstrokes := IndexListing.uniqueStrokes_eq hkey hcolumns (d.catalog.table t).shape
  by_cases hnew : g.flag ≠ 0 ∧ columns ∉ (d.catalog.table t).shape.uniques
  · rw [if_pos hnew] at hstrokes
    rw [if_pos (hcheck.mpr hnew)]
    refine (((tracks_edit (Draws.tracks_createUnique columns)).bind fun _ => hindex).restrict ?_).congr ?_
      fun _ _ _ => id
    · rintro _ _ ⟨rfl, rfl⟩
      exact ⟨hd, hw⟩
    · rintro _ _ l ⟨rfl, rfl⟩
      rw [comp_redraws]
      unfold Redraws
      simp only [hname, IndexListing.strokes, hstrokes, moves_append, moves_singleton]
  · rw [if_neg hnew] at hstrokes
    rw [if_neg fun h => hnew (hcheck.mp h)]
    refine (hindex.restrict ?_).congr ?_ fun _ _ _ => id
    · rintro _ _ ⟨rfl, rfl⟩
      exact ⟨hd, hw⟩
    · rintro _ _ l ⟨rfl, rfl⟩
      unfold Redraws
      simp only [hname, IndexListing.strokes, hstrokes, List.nil_append]

theorem tracks_addIndex (table index : String) (rows : List IndexRow) :
    Tracks (Sketched (Catalog.Draws · s)) (addIndex s table index rows) (IndexListing.ofRows table index rows).Step
      fun _ => Sketched (Catalog.Draws · s) := by
  -- An index that is left out changes nothing but the warnings.
  have hleft (hsought : ¬ (IndexListing.ofRows table index rows).IsSought) (k l : Sketch) :
      (IndexListing.ofRows table index rows).Step k l ↔
        Warns (IndexListing.ofRows table index rows).warning?.toList k l := by
    unfold IndexListing.Step
    rw [IndexListing.strokes_eq_nil hsought]
    constructor
    · rintro ⟨-, _, rfl, rfl⟩
      rfl
    · exact fun h => ⟨fun hs => absurd hs hsought, _, rfl, h⟩
  have hskip (hkey : (IndexListing.ofRows table index rows).origin = "pk") : Tracks (Sketched (Catalog.Draws · s))
      (pure () : Assembly Unit) (IndexListing.ofRows table index rows).Step fun _ => Sketched (Catalog.Draws · s) := by
    refine (tracks_pure ()).congr (fun d k l _ => ?_) fun _ _ _ => id
    rw [hleft fun h => h.1 hkey]
    simp [Warns, IndexListing.warning?, hkey]
  cases rows with
  | nil => exact hskip rfl
  | cons first rest =>
  unfold addIndex
  dsimp only
  by_cases hkey : first.origin = "pk"
  · rw [if_pos (by simp [hkey])]
    exact hskip hkey
  · rw [if_neg (by simpa using hkey)]
    cases hcolumns : indexedColumns? (first :: rest) with
    | none =>
        have hsought : ¬ (IndexListing.ofRows table index (first :: rest)).IsSought := by
          rintro ⟨-, columns, hsome⟩
          cases hcolumns.symm.trans hsome
        refine (tracks_warn _).congr (fun d k l _ => ?_) fun _ _ _ => id
        rw [hleft hsought]
        simp [Warns, IndexListing.warning?, IndexListing.ofRows, hkey, hcolumns]
    | some columns =>
        have hfound := tracks_edit (Draws.tracks_getTable (Catalog.Draws · s) (fun _ _ => id) table)
        refine (hfound.bind fun t =>
          tracks_enterListing t (IndexListing.ofRows table index (first :: rest)) hkey hcolumns).congr
            (fun d k l _ => ?_) fun _ _ _ => id
        have hnone : (IndexListing.ofRows table index (first :: rest)).warning? = none := by
          simp [IndexListing.warning?, IndexListing.ofRows, hcolumns]
        unfold IndexListing.Step
        rw [hnone, Option.toList_none, List.append_nil]
        constructor
        · rintro ⟨_, ⟨_, ⟨hname, rfl⟩, rfl⟩, n, hn, rfl⟩
          exact ⟨fun _ => hname, n, hn, rfl⟩
        · rintro ⟨hname, n, hn, rfl⟩
          exact ⟨_, ⟨_, ⟨hname ⟨hkey, columns, hcolumns⟩, rfl⟩, rfl⟩, n, hn, rfl⟩

/-! ## What has been entered -/

/-- The unique constraints of a table that indexes lead to; one over the columns of an earlier one is left out. -/
def uniquesOn (gs : List IndexListing) (table : String) : List (List String) :=
  ((gs.filter fun g => g.table = table).filterMap IndexListing.unique?).eraseDups

def indexesOn (gs : List IndexListing) (table : String) : OrderedMap String (List String × Bool) :=
  .ofList ((gs.filter fun g => g.table = table).filterMap fun g => g.index?.map fun p => (g.index, p))

/-- The shape of a table with what has been entered on it. -/
def enteredOn (gs : List IndexListing) (table : String) (sh : TableShape) : TableShape :=
  { sh with uniques := uniquesOn gs table, indexes := indexesOn gs table }

def entered (m : OrderedMap String TableShape) (gs : List IndexListing) : OrderedMap String TableShape :=
  m.filterMap fun table sh => some (enteredOn gs table sh)

theorem get?_entered (m : OrderedMap String TableShape) (gs : List IndexListing) (table : String) :
    (entered m gs).get? table = (m.get? table).map (enteredOn gs table) := by
  rw [entered, OrderedMap.get?_filterMap]
  cases m.get? table <;> rfl

theorem keys_entered (m : OrderedMap String TableShape) (gs : List IndexListing) : (entered m gs).keys = m.keys := by
  rw [entered, OrderedMap.keys_filterMap, List.filter_eq_self]
  intro table htable
  obtain ⟨sh, hsh⟩ := OrderedMap.mem_keys_iff.mp htable
  exact OrderedMap.contains_of_get? (a := enteredOn gs table sh) (by rw [OrderedMap.get?_filterMap, hsh]; rfl)

theorem uniquesOn_concat (gs : List IndexListing) (g : IndexListing) : uniquesOn (gs ++ [g]) g.table =
    uniquesOn gs g.table ++ g.unique?.toList.filter fun columns => columns ∉ uniquesOn gs g.table := by
  unfold uniquesOn
  rw [List.filter_append, List.filter_cons_of_pos (by simp), List.filter_nil, List.filterMap_append]
  generalize (gs.filter fun h => h.table = g.table).filterMap IndexListing.unique? = before
  cases hunique : g.unique? with
  | none => simp [hunique]
  | some columns =>
      rw [List.filterMap_cons_some hunique, List.filterMap_nil, OrderedMap.eraseDups_concat]
      by_cases hmem : columns ∈ before <;> simp [hmem]

theorem indexesOn_concat (gs : List IndexListing) (g : IndexListing) : indexesOn (gs ++ [g]) g.table =
    g.index?.toList.foldl (fun m p => m.insert g.index p) (indexesOn gs g.table) := by
  unfold indexesOn OrderedMap.ofList
  rw [List.filter_append, List.filter_cons_of_pos (by simp), List.filter_nil, List.filterMap_append,
    List.foldl_append]
  cases hindex : g.index? with
  | none => simp [hindex]
  | some p => simp [hindex]

/-- What is entered on one table does not count on another one. -/
theorem enteredOn_concat_of_ne {gs : List IndexListing} {g : IndexListing} (h : g.table ≠ table) :
    enteredOn (gs ++ [g]) table = enteredOn gs table := by
  unfold enteredOn uniquesOn indexesOn
  rw [List.filter_append, List.filter_cons_of_neg (by simpa using h), List.filter_nil, List.append_nil]

theorem foldl_draw_uniques (columns : List (List String)) (sh : TableShape) :
    (columns.map Stroke.unique).foldl Stroke.draw sh = { sh with uniques := sh.uniques ++ columns } := by
  induction columns generalizing sh with
  | nil => simp
  | cons names columns ih =>
      rw [List.map_cons, List.foldl_cons, ih]
      simp [Stroke.draw, TableShape.addUnique]

/-- The strokes of an index enter it. -/
theorem foldl_draw_strokes (gs : List IndexListing) (g : IndexListing) (sh : TableShape) :
    (g.strokes (enteredOn gs g.table sh)).foldl Stroke.draw (enteredOn gs g.table sh) =
      enteredOn (gs ++ [g]) g.table sh := by
  rw [IndexListing.strokes, List.foldl_append, IndexListing.uniqueStrokes, foldl_draw_uniques]
  unfold enteredOn
  rw [uniquesOn_concat, indexesOn_concat, IndexListing.indexStrokes]
  cases g.index? <;> rfl

theorem entered_concat (m : OrderedMap String TableShape) (gs : List IndexListing) (g : IndexListing) :
    entered m (gs ++ [g]) = (entered m gs).update g.table fun sh => (g.strokes sh).foldl Stroke.draw sh := by
  refine OrderedMap.eq_of_get? ?_ fun table => ?_
  · rw [OrderedMap.keys_update, keys_entered, keys_entered]
  · rw [OrderedMap.get?_update, get?_entered, get?_entered]
    by_cases htable : g.table = table
    · subst htable
      rw [if_pos rfl, Option.map_map]
      exact congrArg (Option.map · _) (funext fun sh => (foldl_draw_strokes gs g sh).symm)
    · rw [if_neg htable, enteredOn_concat_of_ne htable]

/-- Nothing has been entered on tables without unique constraints and indexes. -/
theorem entered_nil (hbare : ∀ table sh, m.get? table = some sh → sh.uniques = [] ∧ sh.indexes = .empty) :
    entered m [] = m := by
  refine OrderedMap.eq_of_get? (keys_entered m []) fun table => ?_
  rw [get?_entered]
  cases hsh : m.get? table with
  | none => rfl
  | some sh =>
      obtain ⟨huniques, hindexes⟩ := hbare table sh hsh
      show some { sh with uniques := [], indexes := .empty } = some sh
      rw [← huniques, ← hindexes]

/-! ## What goes through -/

/-- The names of the indexes of a table are those of listed ones. -/
theorem exists_of_contains_indexesOn {gs : List IndexListing} {n : String}
    (h : (indexesOn gs table).contains n = true) : ∃ g ∈ gs, g.index?.isSome = true ∧ g.index = n := by
  rw [indexesOn, OrderedMap.contains_ofList_iff, List.mem_map] at h
  obtain ⟨e, he, rfl⟩ := h
  obtain ⟨g, hg, hindex⟩ := List.mem_filterMap.mp he
  obtain ⟨p, hp, rfl⟩ := Option.map_eq_some_iff.mp hindex
  exact ⟨g, List.mem_of_mem_filter hg, hp ▸ rfl, rfl⟩

/-- A listed index goes through after others unless it repeats a column. -/
theorem fitAll_strokes_iff {done : List IndexListing} {g : IndexListing} {columns : List String}
    (hkey : g.origin ≠ "pk") (hcolumns : g.columns = some columns)
    (hpresent : ∀ x ∈ columns, sh.columns.contains x = true)
    (hfresh : ∀ h ∈ done, h.Apart g) (hdone : ∀ h ∈ done, ¬ h.Repeats) {taken : String → Prop}
    (htaken : g.index?.isSome = true → ¬ taken g.index) :
    Stroke.FitAll taken (enteredOn done g.table sh) (g.strokes (enteredOn done g.table sh)) ↔ ¬ g.Repeats := by
  have hindex : Stroke.FitAll taken ((g.uniqueStrokes (enteredOn done g.table sh)).foldl Stroke.draw
      (enteredOn done g.table sh)) g.indexStrokes := by
    rw [IndexListing.uniqueStrokes, foldl_draw_uniques, IndexListing.indexStrokes_eq hcolumns]
    split
    next hplain =>
      have hmade : g.index?.isSome = true := by simp [IndexListing.index?, hplain, hcolumns]
      have hfree : (indexesOn done g.table).contains g.index = false := by
        rw [← Bool.not_eq_true]
        intro h
        obtain ⟨other, hother, hmade', hname⟩ := exists_of_contains_indexesOn h
        exact hfresh other hother hmade' hmade hname
      exact ⟨⟨hpresent, OrderedMap.contains_eq_false_iff.mp hfree, htaken hmade⟩, trivial⟩
    next => trivial
  rw [IndexListing.strokes, Stroke.fitAll_append, and_iff_left hindex,
    IndexListing.uniqueStrokes_eq hkey hcolumns]
  by_cases hflag : g.flag = 0
  · have hnone : g.unique? = none := by simp [IndexListing.unique?, hflag]
    rw [if_neg fun h => h.1 hflag]
    refine iff_of_true trivial ?_
    rintro ⟨others, hsome, -⟩
    cases hnone.symm.trans hsome
  · have hunique : g.unique? = some columns := by simp [IndexListing.unique?, hkey, hflag, hcolumns]
    have hrepeats : ¬ g.Repeats ↔ columns.Nodup := by simp [IndexListing.Repeats, hunique]
    rw [hrepeats]
    by_cases hnew : columns ∈ uniquesOn done g.table
    · rw [if_neg fun h => h.2 hnew]
      refine iff_of_true trivial ?_
      -- The constraint that the table has was entered by an index before this one.
      rw [uniquesOn, List.mem_eraseDups] at hnew
      obtain ⟨h, hh, hsame⟩ := List.mem_filterMap.mp hnew
      by_contra hrepeat
      exact hdone h (List.mem_of_mem_filter hh) ⟨columns, hsame, hrepeat⟩
    · rw [if_pos ⟨hflag, hnew⟩]
      exact ⟨fun h => h.1.2.1, fun h => ⟨⟨hpresent, h, hnew⟩, trivial⟩⟩

/-- A listed index goes through after others unless it repeats a column. -/
theorem step_entered_iff {done : List IndexListing} {g : IndexListing} {ws : List Warning} {l : Sketch}
    (hcolumns : g.origin ≠ "pk" → ∀ columns, g.columns = some columns → HasColumns m g.table columns)
    (hfresh : ∀ h ∈ done, h.Apart g) (hdone : ∀ h ∈ done, ¬ h.Repeats) :
    g.Step ⟨entered m done, ws⟩ l ↔
      ¬ g.Repeats ∧ l = ⟨entered m (done ++ [g]), ws ++ g.warning?.toList⟩ := by
  unfold IndexListing.Step
  by_cases hsought : g.IsSought
  · obtain ⟨hkey, columns, hsome⟩ := hsought
    obtain ⟨sh, hsh, hpresent⟩ := hcolumns hkey columns hsome
    have hname : (entered m done).get? g.table = some (enteredOn done g.table sh) := by
      rw [get?_entered, hsh, Option.map_some]
    have htaken (hmade : g.index?.isSome = true) : ¬ Taken (entered m done) g.table g.index := by
      rintro ⟨key, other, -, hkey, hindex⟩
      rw [get?_entered] at hkey
      obtain ⟨old, -, rfl⟩ := Option.map_eq_some_iff.mp hkey
      obtain ⟨h, hh, hmade', hsame⟩ := exists_of_contains_indexesOn hindex
      exact hfresh h hh hmade' hmade hsame
    rw [hname, Option.getD_some, entered_concat, OrderedMap.update_eq_insert hname]
    simp only [Stroke.moves_iff hname, fitAll_strokes_iff hkey hsome hpresent hfresh hdone htaken]
    constructor
    · rintro ⟨-, _, ⟨hrepeats, rfl⟩, rfl⟩
      exact ⟨hrepeats, rfl⟩
    · rintro ⟨hrepeats, rfl⟩
      exact ⟨fun _ => ⟨_, rfl⟩, _, ⟨hrepeats, rfl⟩, rfl⟩
  · have hnone : ¬ g.Repeats := by
      rintro ⟨columns, hunique, -⟩
      unfold IndexListing.unique? at hunique
      split at hunique
      next h => exact hsought ⟨h.1, columns, hunique⟩
      next => cases hunique
    have hkept : entered m (done ++ [g]) = entered m done := by
      rw [entered_concat]
      simp only [IndexListing.strokes_eq_nil hsought, List.foldl_nil, OrderedMap.update_id]
    rw [hkept, IndexListing.strokes_eq_nil hsought]
    constructor
    · rintro ⟨-, _, rfl, rfl⟩
      exact ⟨hnone, rfl⟩
    · rintro ⟨-, rfl⟩
      exact ⟨fun h => absurd h hsought, _, rfl, rfl⟩

/-- Listed indexes go through unless one of them repeats a column. -/
theorem moves_listings_iff {gs done : List IndexListing} {ws : List Warning} {l : Sketch}
    (hcolumns : ∀ g ∈ gs, g.origin ≠ "pk" → ∀ columns, g.columns = some columns → HasColumns m g.table columns)
    (hapart : (done ++ gs).Pairwise IndexListing.Apart) (hdone : ∀ h ∈ done, ¬ h.Repeats) :
    Moves IndexListing.Step gs ⟨entered m done, ws⟩ l ↔ (∀ g ∈ gs, ¬ g.Repeats) ∧
      l = ⟨entered m (done ++ gs), ws ++ gs.filterMap IndexListing.warning?⟩ := by
  induction gs generalizing done ws with
  | nil => simp [Moves]
  | cons g gs ih =>
      obtain ⟨hg, hgs⟩ := List.forall_mem_cons.mp hcolumns
      have hfresh : ∀ h ∈ done, h.Apart g := fun h hh =>
        (List.pairwise_append.mp hapart).2.2 h hh g List.mem_cons_self
      have hconcat : done ++ g :: gs = (done ++ [g]) ++ gs := by rw [List.append_assoc, List.singleton_append]
      have hrest (hrepeats : ¬ g.Repeats) :
          Moves IndexListing.Step gs ⟨entered m (done ++ [g]), ws ++ g.warning?.toList⟩ l ↔ _ :=
        ih hgs (hconcat ▸ hapart) fun h hh => by
          rcases List.mem_append.mp hh with hold | hnew
          · exact hdone h hold
          · exact List.mem_singleton.mp hnew ▸ hrepeats
      rw [List.forall_mem_cons, hconcat]
      have hwarnings : ws ++ (g :: gs).filterMap IndexListing.warning? =
          ws ++ g.warning?.toList ++ gs.filterMap IndexListing.warning? := by
        rw [List.filterMap_cons]
        cases g.warning? <;> simp
      rw [hwarnings]
      constructor
      · rintro ⟨k, hk, hmoves⟩
        obtain ⟨hrepeats, rfl⟩ := (step_entered_iff hg hfresh hdone).mp hk
        obtain ⟨hothers, rfl⟩ := (hrest hrepeats).mp hmoves
        exact ⟨⟨hrepeats, hothers⟩, rfl⟩
      · rintro ⟨⟨hrepeats, hothers⟩, rfl⟩
        exact ⟨_, (step_entered_iff hg hfresh hdone).mpr ⟨hrepeats, rfl⟩, (hrest hrepeats).mpr ⟨hothers, rfl⟩⟩

/-! ## All indexes -/

def listings (rows : List IndexRow) : List IndexListing :=
  (orderedGroups (fun r => (r.table, r.index)) IndexRow.position rows).map fun g => .ofRows g.1.1 g.1.2 g.2

theorem tracks_addIndexes (rows : List IndexRow) :
    Tracks (Sketched (Catalog.Draws · s)) (addIndexes s rows) (Moves IndexListing.Step (listings rows))
      fun _ => Sketched (Catalog.Draws · s) := by
  have hrun : addIndexes s rows = (orderedGroups (fun r : IndexRow => (r.table, r.index)) IndexRow.position rows).forM
      fun g => addIndex s g.1.1 g.1.2 g.2 :=
    forM_groupBy (fun (name : String × String) rows => addIndex s name.1 name.2 rows) rows
  rw [hrun, listings, moves_map]
  exact Tracks.forM fun g _ => tracks_addIndex g.1.1 g.1.2 g.2

variable {columns : List ColumnRow} {rows : List IndexRow} {d : Draft}

/-- What rows list is over columns of its table, where the rows name tables and columns that are there. -/
theorem present_listings (hbuilt : BuiltFrom columns s d) (htables : ∀ r ∈ rows, ∃ q ∈ columns, q.table = r.table)
    (hcolumns : ∀ r ∈ rows, ∀ x ∈ r.column, ∃ q ∈ columns, q.table = r.table ∧ q.column = x) :
    ∀ g ∈ listings rows, ∀ names, g.columns = some names →
      HasColumns (d.catalog.snapshot s).shape g.table names := by
  intro g hg names hnames
  obtain ⟨⟨name, group⟩, hgroup, rfl⟩ := List.mem_map.mp hg
  have hmember : ∀ r ∈ group, r ∈ rows ∧ (r.table, r.index) = name := fun r hr => by
    simpa using (mem_of_mem_orderedGroups hgroup).mem_iff.mp hr
  have hlisted : group.map IndexRow.column = names.map some := indexedColumns?_eq_some_iff.mp hnames
  refine hbuilt.hasColumns ?_ fun x hx => ?_
  · obtain ⟨r, hr⟩ := List.exists_mem_of_ne_nil _ (ne_nil_of_mem_orderedGroups hgroup)
    obtain ⟨hmem, hname⟩ := hmember r hr
    obtain ⟨q, hq, htable⟩ := htables r hmem
    exact ⟨q, hq, htable.trans (congrArg Prod.fst hname)⟩
  · obtain ⟨r, hr, hx⟩ := List.mem_map.mp (hlisted ▸ List.mem_map_of_mem hx)
    obtain ⟨hmem, hname⟩ := hmember r hr
    obtain ⟨q, hq, htable, hcolumn⟩ := hcolumns r hmem x hx
    exact ⟨q, hq, htable.trans (congrArg Prod.fst hname), hcolumn⟩

/-- Rows list indexes of different names, where no name stands on two tables. -/
theorem pairwise_listings (hapart : ∀ r ∈ rows, ∀ q ∈ rows, r.index = q.index → r.table = q.table) :
    (listings rows).Pairwise IndexListing.Apart := by
  have hnames : (listings rows).map IndexListing.index =
      (groupKeys (fun r => (r.table, r.index)) rows).map Prod.snd := by
    rw [listings, List.map_map, ← map_fst_orderedGroups rows, List.map_map]
    rfl
  have hnodup : ((listings rows).map IndexListing.index).Nodup := by
    rw [hnames]
    refine List.Nodup.map_on ?_ (nodup_groupKeys rows)
    intro x hx y hy hsame
    obtain ⟨r, hr, rfl⟩ := mem_groupKeys.mp hx
    obtain ⟨q, hq, rfl⟩ := mem_groupKeys.mp hy
    exact Prod.ext (hapart r hr q hq hsame) hsame
  exact (List.pairwise_map.mp hnodup).imp fun hne _ _ => hne

/-- Indexes of different names are different entries of their table. -/
theorem nodup_indexesOn {gs : List IndexListing} (hapart : gs.Pairwise IndexListing.Apart) (table : String) :
    (((gs.filter fun g => g.table = table).filterMap fun g => g.index?.map fun p => (g.index, p)).map
      Prod.fst).Nodup := by
  have hown : ∀ (g : IndexListing) (n : String),
      Option.map Prod.fst (g.index?.map fun p => (g.index, p)) = some n → g.index?.isSome = true ∧ n = g.index := by
    intro g n h
    rw [Option.map_map] at h
    obtain ⟨p, hp, rfl⟩ := Option.map_eq_some_iff.mp h
    exact ⟨hp ▸ rfl, rfl⟩
  rw [List.map_filterMap]
  refine List.pairwise_filterMap.mpr ((hapart.sublist List.filter_sublist).imp ?_)
  rintro g h hne n hn n' hn'
  obtain ⟨hmade, rfl⟩ := hown g n hn
  obtain ⟨hmade', rfl⟩ := hown h n' hn'
  exact hne hmade hmade'

/-- A listed index is entered as a unique constraint if it is unique, and as an index if a statement made it. -/
structure IndexListing.Entered (g : IndexListing) (sh : TableShape) (names : List String) : Prop where
  columns : g.columns = some names
  unique : g.flag ≠ 0 → names ∈ sh.uniques
  index : g.origin = "c" → Selection.startsWith g.index "sqlite_autoindex" = false →
    sh.indexes.get? g.index = some (names, g.flag == 1)

/-- Of what is entered on the tables of a shape, every listed index that is none of a primary key is there, or it
is left out with a warning. -/
theorem entered_or_warned {gs : List IndexListing} (hapart : gs.Pairwise IndexListing.Apart)
    (hcolumns : ∀ g ∈ gs, ∀ names, g.columns = some names → HasColumns m g.table names) {g : IndexListing}
    (hg : g ∈ gs) (hkey : g.origin ≠ "pk") :
    (∃ sh names, (entered m gs).get? g.table = some sh ∧ g.Entered sh names ∧ g.warning? = none) ∨
      g.warning? = some (.expressionIndex g.index g.table) := by
  cases hsome : g.columns with
  | none => exact .inr (if_pos ⟨hkey, hsome⟩)
  | some names =>
      have hwarning : g.warning? = none := if_neg fun h => Option.some_ne_none names (hsome.symm.trans h.2)
      have hon : g ∈ gs.filter fun h => h.table = g.table := List.mem_filter.mpr ⟨hg, by simp⟩
      obtain ⟨sh, hsh, -⟩ := hcolumns g hg names hsome
      refine .inl ⟨enteredOn gs g.table sh, names, by rw [get?_entered, hsh, Option.map_some],
        ⟨hsome, fun hflag => ?_, fun hmade hplain => ?_⟩, hwarning⟩
      · have hunique : g.unique? = some names := (if_pos ⟨hkey, hflag⟩).trans hsome
        exact List.mem_eraseDups.mpr (List.mem_filterMap.mpr ⟨g, hon, hunique⟩)
      · have hindex : g.index? = some (names, g.flag == 1) := by
          unfold IndexListing.index?
          rw [if_pos ⟨hmade, hplain⟩, hsome, Option.map_some]
        exact (OrderedMap.get?_ofList (nodup_indexesOn hapart g.table)).mpr
          (List.mem_filterMap.mpr ⟨g, hon, by rw [hindex, Option.map_some]⟩)

/-- **Indexes put together from their rows**: from rows that name tables and columns of the snapshot, where no index
stands on two tables and the columns of one stand at different positions, the assembly goes through exactly if no
index that is to be a unique constraint names a column twice. Then every index that is none of a primary key is
entered, or it is one over an expression and is left out with one warning; and nothing else is entered. -/
theorem indexes_entered_iff (hbuilt : BuiltFrom columns s d) (htables : ∀ r ∈ rows, ∃ q ∈ columns, q.table = r.table)
    (hcolumns : ∀ r ∈ rows, ∀ x ∈ r.column, ∃ q ∈ columns, q.table = r.table ∧ q.column = x)
    (hapart : ∀ r ∈ rows, ∀ q ∈ rows, r.index = q.index → r.table = q.table)
    (hpositions : rows.Pairwise fun r q => (r.table, r.index) = (q.table, q.index) → r.position ≠ q.position) :
    ∃ gs : List IndexListing,
      gs.map (fun g => (g.table, g.index)) = groupKeys (fun r => (r.table, r.index)) rows ∧
      (∀ g ∈ gs, ∃ ordered, ordered.Perm (rows.filter fun r => (r.table, r.index) = (g.table, g.index)) ∧
        ordered.Pairwise (fun r q => r.position < q.position) ∧ g = .ofRows g.table g.index ordered) ∧
      ((∃ e, outcomeOf (addIndexes s rows) d = (.ok (), e)) ↔ ∀ g ∈ gs, ¬ g.Repeats) ∧
      ∀ e, outcomeOf (addIndexes s rows) d = (.ok (), e) →
        e.warnings = d.warnings ++ gs.filterMap IndexListing.warning? ∧
        (e.catalog.snapshot s).shape.keys = (d.catalog.snapshot s).shape.keys ∧
        (∀ table, (e.catalog.snapshot s).shape.get? table =
          ((d.catalog.snapshot s).shape.get? table).map (enteredOn gs table)) ∧
        ∀ g ∈ gs, g.origin ≠ "pk" →
          (∃ sh names, (e.catalog.snapshot s).shape.get? g.table = some sh ∧ g.Entered sh names ∧
            g.warning? = none) ∨ g.warning? = some (.expressionIndex g.index g.table) := by
  have hpresent := present_listings hbuilt htables hcolumns
  have hlisted := pairwise_listings hapart
  have htracks := tracks_addIndexes (s := s) rows
  have hstart : Sketched (Catalog.Draws · s) d ⟨entered (d.catalog.snapshot s).shape [], d.warnings⟩ :=
    ⟨(entered_nil fun _ _ hsh => ⟨(hbuilt.bare hsh).uniques, (hbuilt.bare hsh).indexes⟩).symm ▸ hbuilt.draws, rfl⟩
  have hmoves {l : Sketch} : Moves IndexListing.Step (listings rows)
      ⟨entered (d.catalog.snapshot s).shape [], d.warnings⟩ l ↔ _ :=
    moves_listings_iff (fun g hg _ => hpresent g hg) hlisted fun h (hh : h ∈ []) => absurd hh List.not_mem_nil
  have hdone {e : Draft} (hrun : outcomeOf (addIndexes s rows) d = (.ok (), e)) :
      (∀ g ∈ listings rows, ¬ g.Repeats) ∧
        (e.catalog.snapshot s).shape = entered (d.catalog.snapshot s).shape (listings rows) ∧
        e.warnings = d.warnings ++ (listings rows).filterMap IndexListing.warning? := by
    obtain ⟨l, hl, hdraws, hwarnings⟩ := htracks.leads d _ hstart () e hrun
    obtain ⟨hrepeats, rfl⟩ := hmoves.mp hl
    exact ⟨hrepeats, hdraws.shape, hwarnings⟩
  refine ⟨listings rows, ?_, fun g hg => ?_, ⟨?_, fun hrepeats => ?_⟩, fun e hrun => ?_⟩
  · rw [listings, List.map_map]
    exact map_fst_orderedGroups rows
  · obtain ⟨⟨name, group⟩, hgroup, rfl⟩ := List.mem_map.mp hg
    exact ⟨group, mem_of_mem_orderedGroups hgroup, ApartInGroups.pairwise hpositions hgroup, rfl⟩
  · rintro ⟨e, hrun⟩
    exact (hdone hrun).1
  · obtain ⟨_, e, hrun, -⟩ := htracks.allows d _ _ hstart (hmoves.mpr ⟨hrepeats, rfl⟩)
    exact ⟨e, hrun⟩
  · obtain ⟨-, hshape, hwarnings⟩ := hdone hrun
    rw [hshape]
    exact ⟨hwarnings, keys_entered _ _, get?_entered _ _, fun g hg => entered_or_warned hlisted hpresent hg⟩

def listedColumns : List ColumnRow :=
  [⟨"users", "x", "INTEGER", 1, 1, none⟩, ⟨"posts", "a", "INTEGER", 0, 0, none⟩, ⟨"posts", "b", "TEXT", 0, 0, none⟩]

/-- An index whose columns come in reverse, the index of a primary key, a unique index and that of a constraint over
the same column, and an index over an expression. -/
def listedIndexes : List IndexRow :=
  [⟨"posts", "by_both", 0, "c", some "b", 1⟩, ⟨"users", "users_key", 1, "pk", some "x", 0⟩,
    ⟨"posts", "once", 1, "c", some "a", 0⟩, ⟨"posts", "by_both", 0, "c", some "a", 0⟩,
    ⟨"posts", "sqlite_autoindex_posts_1", 1, "u", some "a", 0⟩, ⟨"users", "loud", 0, "c", none, 0⟩]

theorem indexes_entered_iff_listed : ∃ (s : SnapshotId) (d e : Draft) (gs : List IndexListing),
    BuiltFrom listedColumns s d ∧ outcomeOf (addIndexes s listedIndexes) d = (.ok (), e) ∧
      gs.map IndexListing.index = ["by_both", "users_key", "once", "sqlite_autoindex_posts_1", "loud"] ∧
      (∀ g ∈ gs, ∃ ordered,
        ordered.Perm (listedIndexes.filter fun r => (r.table, r.index) = (g.table, g.index)) ∧
        ordered.Pairwise (fun r q => r.position < q.position) ∧ g = .ofRows g.table g.index ordered) ∧
      e.warnings = d.warnings ++ gs.filterMap IndexListing.warning? ∧
      (e.catalog.snapshot s).shape.keys = (d.catalog.snapshot s).shape.keys ∧
      (∀ table, (e.catalog.snapshot s).shape.get? table =
        ((d.catalog.snapshot s).shape.get? table).map (enteredOn gs table)) ∧
      ∀ g ∈ gs, g.origin ≠ "pk" →
        (∃ sh names, (e.catalog.snapshot s).shape.get? g.table = some sh ∧ g.Entered sh names ∧
          g.warning? = none) ∨ g.warning? = some (.expressionIndex g.index g.table) := by
  obtain ⟨s, d, hbuilt⟩ : ∃ s d, BuiltFrom listedColumns s d := ⟨_, _, rfl⟩
  have htables : ∀ r ∈ listedIndexes, ∃ q ∈ listedColumns, q.table = r.table := by decide
  obtain ⟨gs, hnames, hrows, hiff, hdone⟩ :=
    indexes_entered_iff hbuilt htables (by decide) (by decide) (by decide)
  have hkeys : groupKeys (fun r => (r.table, r.index)) listedIndexes = [("posts", "by_both"), ("users", "users_key"),
      ("posts", "once"), ("posts", "sqlite_autoindex_posts_1"), ("users", "loud")] := by decide
  have hapart : ∀ k ∈ groupKeys (fun r => (r.table, r.index)) listedIndexes,
      ((listedIndexes.filter fun r => (r.table, r.index) = k).map IndexRow.column).Nodup := by decide
  have hrepeats : ∀ g ∈ gs, ¬ g.Repeats := by
    intro g hg
    obtain ⟨ordered, hperm, -, hof⟩ := hrows g hg
    rw [hof]
    exact IndexListing.not_repeats_ofRows hperm (hapart _ (hnames ▸ List.mem_map_of_mem hg))
  obtain ⟨e, hrun⟩ := hiff.mpr hrepeats
  refine ⟨s, d, e, gs, hbuilt, hrun, ?_, hrows, hdone e hrun⟩
  have hindexes := congrArg (List.map Prod.snd) (hnames.trans hkeys)
  rwa [List.map_map] at hindexes

def markColumns : List ColumnRow := [⟨"marks", "a", "INTEGER", 0, 0, none⟩]

/-- A unique index that names the column twice. -/
def markedTwice : List IndexRow :=
  [⟨"marks", "marks_twice", 1, "c", some "a", 0⟩, ⟨"marks", "marks_twice", 1, "c", some "a", 1⟩]

/-- An index that names a column twice ends the assembly. -/
theorem indexes_fail_markedTwice : ∃ (s : SnapshotId) (d : Draft), BuiltFrom markColumns s d ∧
    (∀ r ∈ markedTwice, ∃ q ∈ markColumns, q.table = r.table) ∧
    (∀ r ∈ markedTwice, ∀ x ∈ r.column, ∃ q ∈ markColumns, q.table = r.table ∧ q.column = x) ∧
    (∀ r ∈ markedTwice, ∀ q ∈ markedTwice, r.index = q.index → r.table = q.table) ∧
    (markedTwice.Pairwise fun r q => (r.table, r.index) = (q.table, q.index) → r.position ≠ q.position) ∧
    (outcomeOf (addIndexes s markedTwice) d).1 = .error (.violation (.uniqueRepeats "a" "marks")) := by
  refine ⟨_, _, rfl, by decide, by decide, by decide, by decide, ?_⟩
  have hgroups : groupBy (fun r : IndexRow => (r.table, r.index)) markedTwice =
      [(("marks", "marks_twice"), markedTwice)] := by rfl
  have hsorted : byPosition IndexRow.position markedTwice = markedTwice := byPosition_of_perm (.refl _) (by decide)
  have hrun (s : SnapshotId) : addIndexes s markedTwice =
      (do addIndex s "marks" "marks_twice" markedTwice; pure ()) := by
    rw [addIndexes, hgroups]
    show (do addIndex s "marks" "marks_twice" (byPosition IndexRow.position markedTwice); pure ()) = _
    rw [hsorted]
  rw [hrun]
  rfl

end SchemaSync.Rows
