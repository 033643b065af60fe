import SchemaSync.Proofs.OrderedMap
import SchemaSync.Rows.Assembly

/-!
# Groups of rows

Rows are put together by key, in the order of the first row of each key, and sorted by position inside
a group. `groupBy_eq` says what grouping makes without reference to the map that it fills. Rows that come
shuffled from groups with different keys are put together again: `filter_perm_rows` for the groups,
`byPosition_of_perm` for the rows of one of them.
-/

namespace SchemaSync.Rows

variable {κ α : Type} [DecidableEq κ] {key : α → κ}

/-! ## What grouping makes -/

def groupKeys (key : α → κ) (rows : List α) : List κ := (rows.map key).eraseDups

def grouped (key : α → κ) (rows : List α) : OrderedMap κ (List α) :=
  rows.foldl (OrderedMap.enter [] key fun rs r => rs ++ [r]) .empty

/-- Under a key stand the rows of that key, if there are any. -/
theorem get?_grouped (rows : List α) (k : κ) : (grouped key rows).get? k =
    if (rows.filter fun r => key r = k) = [] then none
    else some (rows.filter fun r => key r = k) := by
  have hrows : ∀ rs : List α, rs.foldl (fun rs r => rs ++ [r]) [] = rs := by
    intro rs
    rw [List.foldl_append_eq_append, List.nil_append, ← List.flatMap_def, List.flatMap_singleton']
  rw [grouped, OrderedMap.get?_foldl_enter, OrderedMap.get?_empty, Option.getD_none, hrows]

theorem keys_grouped (rows : List α) : (grouped key rows).keys = groupKeys key rows :=
  OrderedMap.keys_foldl_enter rows

theorem groupBy_eq (rows : List α) : groupBy key rows =
    (groupKeys key rows).map fun k => (k, rows.filter fun r => key r = k) := by
  rw [← keys_grouped]
  apply OrderedMap.entries_eq_map_keys
  intro k rs hk
  replace hk : (grouped key rows).get? k = some rs := hk
  rw [get?_grouped] at hk
  split at hk
  · cases hk
  · exact Option.some.inj hk

/-- Leaving out rows by their keys leaves out these keys. -/
theorem groupKeys_filter (p : κ → Bool) (rows : List α) :
    groupKeys key (rows.filter fun r => p (key r)) = (groupKeys key rows).filter p := by
  unfold groupKeys
  rw [← OrderedMap.eraseDups_filter, List.filter_map]
  rfl

theorem nodup_groupKeys (rows : List α) : (groupKeys key rows).Nodup := by
  rw [← keys_grouped]
  exact (grouped key rows).nodup_keys

/-! ## Groups regained -/

variable {γ : Type} {name : γ → κ} {rowsOf : γ → List α}

omit [DecidableEq κ] in
/-- Leaving out rows by their keys leaves out groups. -/
theorem filter_flatMap_groups {gs : List γ} (hkey : ∀ g ∈ gs, ∀ r ∈ rowsOf g, key r = name g)
    (p : κ → Bool) : (gs.flatMap rowsOf).filter (fun r => p (key r)) =
      (gs.filter fun g => p (name g)).flatMap rowsOf := by
  induction gs with
  | nil => rfl
  | cons g gs ih =>
      obtain ⟨hfirst, hkeys⟩ := List.forall_mem_cons.mp hkey
      rw [List.flatMap_cons, List.filter_append, ih hkeys, List.filter_cons]
      by_cases hp : p (name g) = true
      · have hown : (rowsOf g).filter (fun r => p (key r)) = rowsOf g := by
          apply List.filter_eq_self.mpr
          intro r hr
          rw [hfirst r hr, hp]
        rw [hown, if_pos hp, List.flatMap_cons]
      · have hnone : (rowsOf g).filter (fun r => p (key r)) = [] := by
          apply List.filter_eq_nil_iff.mpr
          intro r hr
          rw [hfirst r hr]
          exact hp
        rw [hnone, if_neg hp, List.nil_append]

/-- The rows of one key among the rows of groups with different keys are those of its group. -/
theorem filter_flatMap_rows {gs : List γ} (hnodup : (gs.map name).Nodup)
    (hkey : ∀ g ∈ gs, ∀ r ∈ rowsOf g, key r = name g) {g : γ} (hg : g ∈ gs) :
    (gs.flatMap rowsOf).filter (fun r => key r = name g) = rowsOf g := by
  rw [filter_flatMap_groups hkey fun k => decide (k = name g), OrderedMap.filter_key_of_mem hnodup hg,
    List.flatMap_singleton]

/-- Groups with different keys, none of them empty, are known by the keys of their rows. -/
theorem groupKeys_flatMap {gs : List γ} (hnodup : (gs.map name).Nodup)
    (hkey : ∀ g ∈ gs, ∀ r ∈ rowsOf g, key r = name g) (hne : ∀ g ∈ gs, rowsOf g ≠ []) :
    groupKeys key (gs.flatMap rowsOf) = gs.map name := by
  unfold groupKeys
  induction gs with
  | nil => rfl
  | cons g gs ih =>
      obtain ⟨hfresh, hrest⟩ := List.nodup_cons.mp hnodup
      obtain ⟨hfirst, hkeys⟩ := List.forall_mem_cons.mp hkey
      obtain ⟨hsome, hsomes⟩ := List.forall_mem_cons.mp hne
      have hown : (rowsOf g).map key = List.replicate (rowsOf g).length (name g) := by
        rw [List.eq_replicate_iff, List.length_map]
        refine ⟨rfl, fun k hk => ?_⟩
        obtain ⟨r, hr, rfl⟩ := List.mem_map.mp hk
        exact hfirst r hr
      have hother : ((gs.flatMap rowsOf).map key).removeAll ((rowsOf g).map key) =
          (gs.flatMap rowsOf).map key := by
        unfold List.removeAll
        apply List.filter_eq_self.mpr
        intro k hk
        obtain ⟨r, hr, rfl⟩ := List.mem_map.mp hk
        obtain ⟨h, hh, hr⟩ := List.mem_flatMap.mp hr
        have hne : key r ∉ (rowsOf g).map key := by
          rw [hown, hkeys h hh r hr]
          intro hmem
          rw [← List.eq_of_mem_replicate hmem] at hfresh
          exact hfresh (List.mem_map_of_mem hh)
        simpa using hne
      have hsingle : ((rowsOf g).map key).eraseDups = [name g] := by
        obtain ⟨r, rs, hrows⟩ := List.exists_cons_of_ne_nil hsome
        rw [hown, hrows, List.length_cons, List.replicate_succ, List.eraseDups_cons]
        simp
      rw [List.flatMap_cons, List.map_append, List.eraseDups_append, hother, hsingle,
        ih hrest hkeys hsomes]
      rfl

/-- Rows that come from groups with different keys, in whatever order, are put together again. -/
theorem filter_perm_rows {gs : List γ} {rows : List α} (horder : gs.map name = groupKeys key rows)
    (hrows : rows.Perm (gs.flatMap rowsOf)) (hkey : ∀ g ∈ gs, ∀ r ∈ rowsOf g, key r = name g) {g : γ} (hg : g ∈ gs) :
    (rows.filter fun r => key r = name g).Perm (rowsOf g) := by
  have hnodup : (gs.map name).Nodup := horder ▸ nodup_groupKeys rows
  rw [← filter_flatMap_rows hnodup hkey hg]
  exact hrows.filter _

variable {position : α → Int}

theorem pairwise_le_byPosition (rows : List α) :
    (byPosition position rows).Pairwise fun a b => position a ≤ position b :=
  List.pairwise_mergeSort' (Order.Preimage position (· ≤ ·)) rows

/-- Rows at different positions are brought into the order of their positions. -/
theorem byPosition_of_perm {rows sorted : List α} (h : rows.Perm sorted)
    (hsorted : sorted.Pairwise fun a b => position a < position b) :
    byPosition position rows = sorted := by
  have hperm : (byPosition position rows).Perm sorted := (List.mergeSort_perm _ _).trans h
  have hnodup : (sorted.map position).Nodup := List.pairwise_map.mpr (hsorted.imp fun hlt => ne_of_lt hlt)
  refine hperm.eq_of_pairwise ?_ (pairwise_le_byPosition rows) (hsorted.imp fun hlt => hlt.le)
  intro a b ha hb hab hba
  exact List.inj_on_of_nodup_map hnodup (hperm.mem_iff.mp ha) hb (le_antisymm hab hba)

/-! ## Groups in the order of their rows -/

/-- The groups of rows, each with its rows in the order of their positions. -/
def orderedGroups (key : α → κ) (position : α → Int) (rows : List α) : List (κ × List α) :=
  (groupKeys key rows).map fun k => (k, byPosition position (rows.filter fun r => key r = k))

theorem map_fst_orderedGroups (rows : List α) :
    (orderedGroups key position rows).map Prod.fst = groupKeys key rows := by
  rw [orderedGroups, List.map_map]
  exact List.map_id _

theorem mem_groupKeys {rows : List α} {k : κ} : k ∈ groupKeys key rows ↔ ∃ r ∈ rows, key r = k := by
  rw [groupKeys, List.mem_eraseDups, List.mem_map]

theorem mem_of_mem_orderedGroups {rows : List α} {g : κ × List α} (hg : g ∈ orderedGroups key position rows) :
    g.2.Perm (rows.filter fun r => key r = g.1) := by
  obtain ⟨k, -, rfl⟩ := List.mem_map.mp hg
  exact List.mergeSort_perm _ _

/-- A group is not empty. -/
theorem ne_nil_of_mem_orderedGroups {rows : List α} {g : κ × List α} (hg : g ∈ orderedGroups key position rows) :
    g.2 ≠ [] := by
  have hperm := mem_of_mem_orderedGroups hg
  obtain ⟨k, hk, rfl⟩ := List.mem_map.mp hg
  obtain ⟨r, hr, hkey⟩ := mem_groupKeys.mp hk
  intro hnil
  rw [hnil] at hperm
  exact List.not_mem_nil (hperm.mem_iff.mpr (List.mem_filter.mpr ⟨hr, by simpa using hkey⟩))

omit [DecidableEq κ] in
theorem forM_map {m : Type → Type} [Monad m] (f : κ → α) (step : α → m PUnit) (ks : List κ) :
    (ks.map f).forM step = ks.forM fun k => step (f k) := by
  induction ks with
  | nil => rfl
  | cons k ks ih =>
      show (do step (f k); (ks.map f).forM step) = _
      rw [ih]
      rfl

theorem forM_groupBy {m : Type → Type} [Monad m] (step : κ → List α → m PUnit) (rows : List α) :
    ((groupBy key rows).forM fun g => step g.1 (byPosition position g.2)) =
      (orderedGroups key position rows).forM fun g => step g.1 g.2 := by
  rw [groupBy_eq, orderedGroups, forM_map, forM_map]

/-- Leaving out rows by their keys leaves out groups, and the others are as they were. -/
theorem orderedGroups_filter (p : κ → Bool) (rows : List α) :
    orderedGroups key position (rows.filter fun r => p (key r)) =
      (orderedGroups key position rows).filter fun g => p g.1 := by
  unfold orderedGroups
  rw [groupKeys_filter, List.filter_map]
  apply List.map_congr_left
  intro k hk
  replace hk : p k = true := (List.mem_filter.mp hk).2
  rw [List.filter_filter]
  congr 2
  apply List.filter_congr
  intro r _
  by_cases hkey : key r = k
  · simp [hkey, hk]
  · simp [hkey]

/-- Rows of one key stand at different positions. -/
def ApartInGroups (key : α → κ) (position : α → Int) (rows : List α) : Prop :=
  rows.Pairwise fun r q => key r = key q → position r ≠ position q

/-- Rows at different positions are brought into ascending order. -/
theorem pairwise_byPosition {rows : List α} (h : rows.Pairwise fun r q => position r ≠ position q) :
    (byPosition position rows).Pairwise fun r q => position r < position q := by
  have hperm : (byPosition position rows).Perm rows := List.mergeSort_perm _ _
  have hne : (byPosition position rows).Pairwise fun r q => position r ≠ position q :=
    (hperm.pairwise_iff fun hne => hne.symm).mpr h
  exact ((pairwise_le_byPosition rows).and hne).imp fun hlt => lt_of_le_of_ne hlt.1 hlt.2

theorem ApartInGroups.pairwise_filter {rows : List α} (h : ApartInGroups key position rows) (k : κ) :
    (rows.filter fun r => key r = k).Pairwise fun r q => position r ≠ position q := by
  refine List.Pairwise.imp_of_mem ?_ (h.sublist List.filter_sublist)
  intro r q hr hq hne
  have hrkey : key r = k := by simpa using (List.mem_filter.mp hr).2
  have hqkey : key q = k := by simpa using (List.mem_filter.mp hq).2
  exact hne (hrkey.trans hqkey.symm)

theorem ApartInGroups.pairwise {rows : List α} (h : ApartInGroups key position rows) {g : κ × List α}
    (hg : g ∈ orderedGroups key position rows) : g.2.Pairwise fun r q => position r < position q := by
  obtain ⟨k, -, rfl⟩ := List.mem_map.mp hg
  exact pairwise_byPosition (h.pairwise_filter k)

/-- The order of the rows decides about nothing but the order of the groups. -/
theorem ApartInGroups.perm_orderedGroups {rows shuffled : List α} (h : ApartInGroups key position rows)
    (hperm : shuffled.Perm rows) :
    (orderedGroups key position shuffled).Perm (orderedGroups key position rows) := by
  have hkeys : (groupKeys key shuffled).Perm (groupKeys key rows) := by
    refine (List.perm_ext_iff_of_nodup (nodup_groupKeys _) (nodup_groupKeys _)).mpr fun k => ?_
    simp only [mem_groupKeys, hperm.mem_iff]
  have hrows : (fun k => (k, byPosition position (shuffled.filter fun r => key r = k))) =
      fun k => (k, byPosition position (rows.filter fun r => key r = k)) := by
    funext k
    rw [byPosition_of_perm ((hperm.filter _).trans (List.mergeSort_perm _ _).symm)
      (pairwise_byPosition (h.pairwise_filter k))]
    rfl
  unfold orderedGroups
  rw [hrows]
  exact hkeys.map _

end SchemaSync.Rows
