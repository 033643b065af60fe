import Mathlib
import SchemaSync.OrderedMap

/-!
# Look-ups in ordered maps

No key occurs twice, so an ordered map is determined as a set of entries by its look-ups:
`mem_entries_iff_get?`. Every operation on entries is then known by what it does to look-ups, and
the proofs about snapshots never unfold a list of entries.
-/

namespace SchemaSync.OrderedMap

universe u v w

variable {κ : Type u} {α : Type v} {β : Type w} [DecidableEq κ]

/-! ## Entries and look-ups -/

theorem findEntry_eq_some_iff {k : κ} {a : α} :
    ∀ {es : List (κ × α)}, (es.map Prod.fst).Nodup → (findEntry k es = some a ↔ (k, a) ∈ es)
  | [], _ => by simp [findEntry]
  | e :: es, hes => by
    obtain ⟨hnot, hrest⟩ := List.nodup_cons.mp hes
    have ih := findEntry_eq_some_iff (k := k) (a := a) hrest
    by_cases hk : e.1 = k
    · have hfree : (k, a) ∉ es := fun h => hnot (List.mem_map.mpr ⟨(k, a), h, hk.symm⟩)
      rw [findEntry, if_pos hk, List.mem_cons]
      constructor
      · intro h
        exact Or.inl (Prod.ext hk.symm (Option.some.inj h).symm)
      · intro h
        rcases h with h | h
        · exact congrArg (fun x : κ × α => some x.2) h.symm
        · exact absurd h hfree
    · rw [findEntry, if_neg hk, ih, List.mem_cons]
      refine ⟨Or.inr, ?_⟩
      intro h
      rcases h with h | h
      · exact absurd (congrArg Prod.fst h).symm hk
      · exact h

/-- An entry is in the map exactly when its key looks up its value. -/
theorem mem_entries_iff_get? {m : OrderedMap κ α} {k : κ} {a : α} :
    (k, a) ∈ m.entries ↔ m.get? k = some a :=
  (findEntry_eq_some_iff m.nodup).symm

theorem mem_values_iff {m : OrderedMap κ α} {a : α} :
    a ∈ m.values ↔ ∃ k, m.get? k = some a := by
  rw [values, List.mem_map]
  constructor
  · intro h
    rcases h with ⟨⟨k, b⟩, he, rfl⟩
    exact ⟨k, mem_entries_iff_get?.mp he⟩
  · intro h
    rcases h with ⟨k, hk⟩
    exact ⟨(k, a), mem_entries_iff_get?.mpr hk, rfl⟩

theorem mem_values_of_get? {m : OrderedMap κ α} {k : κ} {a : α} (h : m.get? k = some a) :
    a ∈ m.values := mem_values_iff.mpr ⟨k, h⟩

theorem mem_map_values_iff {m : OrderedMap κ α} {f : α → β} {b : β} :
    b ∈ m.values.map f ↔ ∃ k a, m.get? k = some a ∧ f a = b := by
  simp only [List.mem_map, mem_values_iff]
  constructor
  · rintro ⟨a, ⟨k, hk⟩, hb⟩
    exact ⟨k, a, hk, hb⟩
  · rintro ⟨k, a, hk, hb⟩
    exact ⟨a, ⟨k, hk⟩, hb⟩

theorem contains_iff {m : OrderedMap κ α} {k : κ} :
    m.contains k = true ↔ ∃ a, m.get? k = some a := Option.isSome_iff_exists

theorem contains_of_get? {m : OrderedMap κ α} {k : κ} {a : α} (h : m.get? k = some a) :
    m.contains k = true := contains_iff.mpr ⟨a, h⟩

theorem contains_eq_false_iff {m : OrderedMap κ α} {k : κ} :
    m.contains k = false ↔ m.get? k = none := by
  rw [contains, Option.isSome_eq_false_iff, Option.isNone_iff_eq_none]

theorem mem_keys_iff {m : OrderedMap κ α} {k : κ} : k ∈ m.keys ↔ ∃ a, m.get? k = some a := by
  rw [← contains_iff_mem_keys, contains_iff]

theorem get?_eq_none_iff {m : OrderedMap κ α} {k : κ} : m.get? k = none ↔ k ∉ m.keys := by
  rw [← contains_iff_mem_keys, ← contains_eq_false_iff, Bool.not_eq_true]

omit [DecidableEq κ] in
theorem isEmpty_iff {m : OrderedMap κ α} : m.isEmpty = true ↔ m.entries = [] :=
  List.isEmpty_iff

@[simp] theorem get?_empty (k : κ) : (empty : OrderedMap κ α).get? k = none := rfl

/-- Look-ups in two maps agree everywhere if they agree at the keys of both. -/
theorem forall_map_get?_eq_iff {γ : Type w} {m : OrderedMap κ α} {n : OrderedMap κ β} {f : α → γ}
    {g : β → γ} : (∀ k, (m.get? k).map f = (n.get? k).map g) ↔
      ∀ k ∈ m.keys ++ n.keys, (m.get? k).map f = (n.get? k).map g := by
  constructor
  · intro h k _
    exact h k
  · intro h k
    by_cases hk : k ∈ m.keys ++ n.keys
    · exact h k hk
    · rw [List.mem_append, not_or, ← get?_eq_none_iff, ← get?_eq_none_iff] at hk
      rw [hk.1, hk.2, Option.map_none, Option.map_none]

/-- Where every value names its key, the names of the values are the keys. -/
theorem map_values_eq_keys {m : OrderedMap κ α} {f : α → κ} (h : ∀ k a, m.get? k = some a → f a = k) :
    m.values.map f = m.keys := by
  unfold values keys
  rw [List.map_map]
  apply List.map_congr_left
  rintro ⟨k, a⟩ he
  exact h k a (mem_entries_iff_get?.mp he)

/-- Values that go by their keys have different names. -/
theorem nodup_map_values {m : OrderedMap κ α} {f : α → κ} (h : ∀ k a, m.get? k = some a → f a = k) :
    (m.values.map f).Nodup := by
  rw [map_values_eq_keys h]
  exact m.nodup_keys

/-- Without look-ups there are no entries. -/
theorem entries_eq_nil {m : OrderedMap κ α} (h : ∀ k, m.get? k = none) : m.entries = [] := by
  rw [List.eq_nil_iff_forall_not_mem]
  rintro ⟨k, a⟩ he
  rw [mem_entries_iff_get?, h k] at he
  cases he

theorem eq_empty {m : OrderedMap κ α} (h : ∀ k, m.get? k = none) : m = empty :=
  ext (entries_eq_nil h)

/-- The order of entries does not matter to look-ups. -/
theorem get?_eq_of_perm {m n : OrderedMap κ α} (h : m.entries.Perm n.entries) (k : κ) :
    m.get? k = n.get? k := by
  ext a
  rw [← mem_entries_iff_get?, ← mem_entries_iff_get?]
  exact h.mem_iff

theorem filterMap_congr {m : OrderedMap κ α} {f g : κ → α → Option β}
    (h : ∀ k a, m.get? k = some a → f k a = g k a) : m.filterMap f = m.filterMap g := by
  apply ext
  apply List.filterMap_congr
  rintro ⟨k, a⟩ he
  rw [h k a (mem_entries_iff_get?.mp he)]

/-- Where every entry is kept, keeping and changing entries is changing values. -/
theorem filterMap_eq_map {m : OrderedMap κ α} {f : κ → α → Option β} {g : α → β}
    (h : ∀ k a, m.get? k = some a → f k a = some (g a)) : m.filterMap f = m.map g := by
  apply ext
  have hentries : ∀ e ∈ m.entries,
      ((f e.1 e.2).map fun b => (e.1, b)) = some (e.1, g e.2) := by
    rintro ⟨k, a⟩ he
    rw [h k a (mem_entries_iff_get?.mp he), Option.map_some]
  show (m.entries.filterMap fun e => (f e.1 e.2).map fun b => (e.1, b)) =
    m.entries.map fun e => (e.1, g e.2)
  rw [List.filterMap_congr hentries, List.filterMap_eq_map']

/-! ## What the operations do to look-ups -/

theorem get?_filterMap (f : κ → α → Option β) (m : OrderedMap κ α) (k : κ) :
    (m.filterMap f).get? k = (m.get? k).bind (f k) := by
  ext b
  rw [← mem_entries_iff_get?, filterMap, List.mem_filterMap, Option.bind_eq_some_iff]
  constructor
  · intro h
    rcases h with ⟨⟨j, a⟩, he, hb⟩
    obtain ⟨c, hc, hcb⟩ := Option.map_eq_some_iff.mp hb
    cases hcb
    exact ⟨a, mem_entries_iff_get?.mp he, hc⟩
  · intro h
    rcases h with ⟨a, ha, hb⟩
    exact ⟨(k, a), mem_entries_iff_get?.mpr ha, by simp [hb]⟩

/-- The keys that are left after keeping and changing entries, in their order. -/
theorem keys_filterMap (f : κ → α → Option β) (m : OrderedMap κ α) :
    (m.filterMap f).keys = m.keys.filter (m.filterMap f).contains := by
  have hcontains : ∀ e ∈ m.entries, (m.filterMap f).contains e.1 = (f e.1 e.2).isSome := by
    intro e he
    rw [contains, get?_filterMap, mem_entries_iff_get?.mp he, Option.bind_some]
  have hkeys : (m.filterMap f).keys = m.entries.filterMap fun e => (f e.1 e.2).map fun _ => e.1 := by
    unfold keys filterMap
    rw [List.map_filterMap]
    simp only [Option.map_map]
    rfl
  rw [hkeys, keys, List.filter_map, ← List.filterMap_eq_map, List.filterMap_filter]
  apply List.filterMap_congr
  intro e he
  rw [Function.comp_apply, hcontains e he]
  cases f e.1 e.2 <;> rfl

omit [DecidableEq κ] in
theorem map_filterMap {γ : Type w} (f : κ → α → Option β) (g : β → γ) (m : OrderedMap κ α) :
    (m.filterMap f).map g = m.filterMap fun k a => (f k a).map g := by
  apply ext
  show (m.entries.filterMap _).map _ = _
  rw [List.map_filterMap]
  apply List.filterMap_congr
  intro e _
  rw [Option.map_map, Option.map_map]
  rfl

/-- A list that is put together from the entries that are left is put together from all entries. -/
theorem flatMap_entries_filterMap {γ : Type w} (f : κ → α → Option β) (m : OrderedMap κ α)
    (g : κ × β → List γ) : (m.filterMap f).entries.flatMap g =
      m.entries.flatMap fun e => (((m.filterMap f).get? e.1).map fun b => g (e.1, b)).getD [] := by
  rw [show (m.filterMap f).entries = m.entries.filterMap fun e => (f e.1 e.2).map fun b => (e.1, b)
    from rfl, List.filterMap_eq_flatMap_toList, List.flatMap_assoc]
  apply List.flatMap_congr
  intro e he
  rw [get?_filterMap, mem_entries_iff_get?.mp he, Option.bind_some]
  cases f e.1 e.2 with
  | none => rfl
  | some b => exact List.flatMap_singleton g (e.1, b)

theorem get?_filter (p : κ → α → Bool) (m : OrderedMap κ α) (k : κ) :
    (m.filter p).get? k = (m.get? k).filter (p k) := by
  ext a
  rw [← mem_entries_iff_get?, filter, List.mem_filter, mem_entries_iff_get?,
    Option.filter_eq_some_iff]

theorem get?_filter_eq_some_iff {p : κ → α → Bool} {m : OrderedMap κ α} {k : κ} {a : α} :
    (m.filter p).get? k = some a ↔ m.get? k = some a ∧ p k a = true := by
  rw [get?_filter, Option.filter_eq_some_iff]

theorem get?_erase (m : OrderedMap κ α) (k j : κ) :
    (m.erase k).get? j = if j = k then none else m.get? j := by
  rw [erase, get?_filter]
  by_cases h : j = k
  · simp [h]
  · cases hm : m.get? j <;> simp [h, Option.filter]

theorem get?_insertNew (m : OrderedMap κ α) (k j : κ) (a : α) :
    (m.insertNew k a).get? j = (m.get? j).or (if k = j then some a else none) := by
  rw [insertNew]
  by_cases hk : m.contains k = true
  · rw [if_pos hk]
    by_cases h : k = j
    · obtain ⟨b, hb⟩ := contains_iff.mp hk
      subst h
      simp [hb]
    · simp [h]
  · rw [if_neg hk, get?_insert]
    by_cases h : k = j
    · subst h
      have hnone := contains_eq_false_iff.mp (Bool.not_eq_true _ ▸ hk)
      simp [hnone]
    · simp [h]

/-- After a renaming to a free key, the new key holds what the old one held. -/
theorem get?_rename {m : OrderedMap κ α} {old new : κ} (h : new ∉ m.keys) (j : κ) :
    (m.rename old new).get? j =
      if j = new then m.get? old else if j = old then none else m.get? j := by
  have hentries : (m.rename old new).entries =
      m.entries.map fun e => (renameKey old new e.1, e.2) := by
    rw [rename, dif_neg h]
  have hfree : m.get? new = none := get?_eq_none_iff.mpr h
  ext a
  rw [← mem_entries_iff_get?, hentries, List.mem_map]
  constructor
  · intro h
    rcases h with ⟨⟨k, b⟩, he, heq⟩
    obtain ⟨hkey, rfl⟩ := Prod.mk.inj heq
    rw [mem_entries_iff_get?] at he
    by_cases hk : k = old
    · rw [renameKey, if_pos hk] at hkey
      rw [if_pos hkey.symm, ← hk, he]
    · rw [renameKey, if_neg hk] at hkey
      subst hkey
      have hnew : k ≠ new := by
        rintro rfl
        rw [hfree] at he
        cases he
      rw [if_neg hnew, if_neg hk, he]
  · intro ha
    by_cases hj : j = new
    · rw [if_pos hj] at ha
      exact ⟨(old, a), mem_entries_iff_get?.mpr ha, by simp [renameKey, hj]⟩
    · rw [if_neg hj] at ha
      by_cases hold : j = old
      · rw [if_pos hold] at ha
        cases ha
      · rw [if_neg hold] at ha
        exact ⟨(j, a), mem_entries_iff_get?.mpr ha, by simp [renameKey, hold]⟩

/-- What stands under a key after a renaming to a free key. -/
theorem get?_rename_eq_some_iff {m : OrderedMap κ α} {old new : κ} {a : α} (hold : m.get? old = some a)
    (hfree : m.get? new = none) {k : κ} {b : α} :
    (m.rename old new).get? k = some b ↔
      (k = new ∧ b = a) ∨ (k ≠ old ∧ m.get? k = some b) := by
  rw [get?_rename (get?_eq_none_iff.mp hfree)]
  by_cases hnew : k = new
  · rw [if_pos hnew, hold, hnew, hfree]
    simp [eq_comm]
  · rw [if_neg hnew]
    by_cases hk : k = old
    · simp [hk, hk ▸ hnew]
    · simp [hk, hnew]

/-! ## Equal maps -/

theorem entries_eq_map_keys {m : OrderedMap κ α} {f : κ → α}
    (h : ∀ k a, m.get? k = some a → f k = a) : m.entries = m.keys.map fun k => (k, f k) := by
  unfold keys
  rw [List.map_map]
  refine (List.map_id' m.entries).symm.trans (List.map_congr_left ?_)
  rintro ⟨k, a⟩ he
  show (k, a) = (k, f k)
  rw [h k a (mem_entries_iff_get?.mp he)]

/-- A map is determined by the order of its keys and by its look-ups. -/
theorem eq_of_get? {m n : OrderedMap κ α} (hkeys : m.keys = n.keys) (h : ∀ k, m.get? k = n.get? k) :
    m = n := by
  apply ext
  cases hm : m.entries with
  | nil =>
      have hn : n.keys = [] := by rw [← hkeys, keys, hm, List.map_nil]
      exact (List.map_eq_nil_iff.mp hn).symm
  | cons e es =>
      have hleft : m.entries = m.keys.map fun k => (k, (m.get? k).getD e.2) :=
        entries_eq_map_keys fun k a hk => by rw [hk, Option.getD_some]
      have hright : n.entries = n.keys.map fun k => (k, (n.get? k).getD e.2) :=
        entries_eq_map_keys fun k a hk => by rw [hk, Option.getD_some]
      rw [← hm, hleft, hright, hkeys]
      apply List.map_congr_left
      intro k _
      rw [h]

theorem keys_insert_of_contains {m : OrderedMap κ α} {k : κ} (h : m.contains k = true) (a : α) :
    (m.insert k a).keys = m.keys := by
  rw [keys_insert, if_pos (contains_iff_mem_keys.mp h)]

theorem contains_insert_self (m : OrderedMap κ α) (k : κ) (a : α) : (m.insert k a).contains k = true := by
  rw [contains, get?_insert, if_pos rfl]
  rfl

theorem insert_insert (m : OrderedMap κ α) (k : κ) (a b : α) :
    (m.insert k a).insert k b = m.insert k b := by
  refine eq_of_get? ?_ fun j => ?_
  · rw [keys_insert_of_contains (contains_insert_self m k a), keys_insert, keys_insert]
  · rw [get?_insert, get?_insert, get?_insert]
    by_cases hj : k = j
    · rw [if_pos hj, if_pos hj]
    · rw [if_neg hj, if_neg hj, if_neg hj]

theorem map_insert (f : α → β) (m : OrderedMap κ α) (k : κ) (a : α) :
    (m.insert k a).map f = (m.map f).insert k (f a) := by
  refine eq_of_get? ?_ fun j => ?_
  · rw [keys_map, keys_insert, keys_insert, keys_map]
  · rw [get?_map, get?_insert, get?_insert, get?_map]
    by_cases hj : k = j
    · rw [if_pos hj, if_pos hj, Option.map_some]
    · rw [if_neg hj, if_neg hj]

/-- Functions that agree on the values of a map give the same map. -/
theorem map_congr {m : OrderedMap κ α} {f g : α → β} (h : ∀ k a, m.get? k = some a → f a = g a) :
    m.map f = m.map g := by
  refine eq_of_get? (by rw [keys_map, keys_map]) fun j => ?_
  rw [get?_map, get?_map]
  cases hj : m.get? j with
  | none => rfl
  | some a => rw [Option.map_some, Option.map_some, h j a hj]

/-! ## Renaming back -/

/-- Renaming to a free key changes the key of one entry. -/
theorem entries_rename {m : OrderedMap κ α} {old new : κ} (h : new ∉ m.keys) :
    (m.rename old new).entries = m.entries.map fun e => (renameKey old new e.1, e.2) := by
  rw [rename, dif_neg h]

theorem renameKey_self (old k : κ) : renameKey old old k = k := by
  unfold renameKey
  split
  · next h => exact h.symm
  · rfl

theorem renameKey_of_ne {old k : κ} (new : κ) (h : k ≠ old) : renameKey old new k = k := if_neg h

/-- A renaming to a free key is taken back by the renaming the other way round. -/
theorem rename_rename {m : OrderedMap κ α} {old new : κ} (h : new ∉ m.keys) (hne : old ≠ new) :
    (m.rename old new).rename new old = m := by
  have hfree : old ∉ (m.rename old new).keys := by
    rw [keys_rename h, List.mem_map]
    rintro ⟨k, -, hk⟩
    unfold renameKey at hk
    split at hk
    · exact hne hk.symm
    · contradiction
  apply ext
  rw [entries_rename hfree, entries_rename h, List.map_map]
  refine (List.map_congr_left ?_).trans (List.map_id _)
  rintro ⟨k, a⟩ he
  have hk : k ≠ new := by
    rintro rfl
    exact h (List.mem_map_of_mem he)
  show (renameKey new old (renameKey old new k), a) = (k, a)
  by_cases hold : k = old
  · rw [renameKey, if_pos (by rw [renameKey, if_pos hold]), hold]
  · rw [renameKey_of_ne new hold, renameKey_of_ne old hk]

/-! ## Changes under a key -/

/-- Change the value under a key, where there is one. -/
def update (m : OrderedMap κ α) (k : κ) (f : α → α) : OrderedMap κ α :=
  match m.get? k with
  | some a => m.insert k (f a)
  | none => m

@[simp] theorem keys_update (m : OrderedMap κ α) (k : κ) (f : α → α) : (m.update k f).keys = m.keys := by
  unfold update
  cases hk : m.get? k with
  | none => rfl
  | some a => exact keys_insert_of_contains (contains_of_get? hk) _

theorem get?_update (m : OrderedMap κ α) (k j : κ) (f : α → α) :
    (m.update k f).get? j = if k = j then (m.get? j).map f else m.get? j := by
  unfold update
  cases hk : m.get? k with
  | none =>
      by_cases hj : k = j
      · rw [if_pos hj, ← hj, hk, Option.map_none]
      · rw [if_neg hj]
  | some a =>
      show (m.insert k (f a)).get? j = _
      rw [get?_insert]
      by_cases hj : k = j
      · rw [if_pos hj, if_pos hj, ← hj, hk, Option.map_some]
      · rw [if_neg hj, if_neg hj]

theorem update_eq_insert {m : OrderedMap κ α} {k : κ} {a : α} (h : m.get? k = some a) (f : α → α) :
    m.update k f = m.insert k (f a) := by
  unfold update
  rw [h]

theorem update_id (m : OrderedMap κ α) (k : κ) : m.update k (fun a => a) = m := by
  refine eq_of_get? (keys_update m k _) fun j => ?_
  rw [get?_update]
  by_cases hj : k = j
  · rw [if_pos hj, Option.map_id']
  · rw [if_neg hj]

theorem update_update (m : OrderedMap κ α) (k : κ) (f g : α → α) :
    (m.update k f).update k g = m.update k fun a => g (f a) := by
  refine eq_of_get? (by simp) fun j => ?_
  rw [get?_update, get?_update, get?_update]
  by_cases hj : k = j
  · rw [if_pos hj, if_pos hj, if_pos hj, Option.map_map]
    rfl
  · rw [if_neg hj, if_neg hj, if_neg hj]

/-- A change that a view does not show. -/
theorem map_update_of_eq {f : α → β} {g : α → α} (h : ∀ a, f (g a) = f a) (m : OrderedMap κ α) (k : κ) :
    (m.update k g).map f = m.map f := by
  refine eq_of_get? (by rw [keys_map, keys_map, keys_update]) fun j => ?_
  rw [get?_map, get?_map, get?_update]
  by_cases hj : k = j
  · rw [if_pos hj, Option.map_map]
    exact congrArg (Option.map · _) (funext h)
  · rw [if_neg hj]

/-- After changes under keys, a key holds what its own changes made of what it held before. -/
theorem get?_foldl_update {γ : Type w} {key : γ → κ} {change : γ → α → α} (gs : List γ)
    (m : OrderedMap κ α) (k : κ) : (gs.foldl (fun n g => n.update (key g) (change g)) m).get? k =
      (m.get? k).map fun a => (gs.filter fun g => key g = k).foldl (fun a g => change g a) a := by
  induction gs generalizing m with
  | nil => simp
  | cons g gs ih =>
      rw [List.foldl_cons, ih, get?_update]
      by_cases hk : key g = k
      · simp [hk, Option.map_map, Function.comp_def]
      · simp [hk]

/-- Among things with different keys only one has the key of a member. -/
theorem filter_key_of_mem {γ : Type w} {name : γ → κ} {gs : List γ} (hnodup : (gs.map name).Nodup) {g : γ}
    (hg : g ∈ gs) : gs.filter (fun h => decide (name h = name g)) = [g] := by
  obtain ⟨before, after, rfl⟩ := List.append_of_mem hg
  rw [List.map_append, List.map_cons, List.nodup_middle, ← List.map_append] at hnodup
  have hfresh : ∀ h ∈ before ++ after, ¬ decide (name h = name g) = true := fun h hh heq =>
    (List.nodup_cons.mp hnodup).1 (of_decide_eq_true heq ▸ List.mem_map_of_mem hh)
  obtain ⟨hbefore, hafter⟩ := List.forall_mem_append.mp hfresh
  rw [List.filter_append, List.filter_eq_nil_iff.mpr hbefore, List.nil_append, List.filter_cons,
    if_pos (decide_eq_true rfl), List.filter_eq_nil_iff.mpr hafter]

/-- After changes under different keys, a key holds what its one change made. -/
theorem get?_foldl_update_of_mem {γ : Type w} {key : γ → κ} {change : γ → α → α} {gs : List γ}
    (hnodup : (gs.map key).Nodup) {g : γ} (hg : g ∈ gs) (m : OrderedMap κ α) :
    (gs.foldl (fun n g => n.update (key g) (change g)) m).get? (key g) =
      (m.get? (key g)).map (change g) := by
  rw [get?_foldl_update, filter_key_of_mem hnodup hg]
  rfl

theorem keys_foldl_update {γ : Type w} {key : γ → κ} {change : γ → α → α} (gs : List γ)
    (m : OrderedMap κ α) : (gs.foldl (fun n g => n.update (key g) (change g)) m).keys = m.keys := by
  induction gs generalizing m with
  | nil => rfl
  | cons g gs ih => rw [List.foldl_cons, ih, keys_update]

omit [DecidableEq κ] in
/-- A last entry counts if it has not occurred before. -/
theorem eraseDups_concat [BEq κ] [LawfulBEq κ] (ks : List κ) (k : κ) [Decidable (k ∈ ks)] :
    (ks ++ [k]).eraseDups = if k ∈ ks then ks.eraseDups else ks.eraseDups ++ [k] := by
  rw [List.eraseDups_append]
  by_cases hmem : k ∈ ks
  · rw [if_pos hmem]
    simp [List.removeAll, hmem]
  · rw [if_neg hmem]
    simp [List.removeAll, hmem, List.eraseDups_cons]

omit [DecidableEq κ] in
theorem eraseDups_of_nodup [BEq κ] [LawfulBEq κ] {ks : List κ} (h : ks.Nodup) :
    ks.eraseDups = ks := by
  classical
  induction ks using List.reverseRecOn with
  | nil => rfl
  | append_singleton ks k ih =>
      obtain ⟨hks, -, hk⟩ := List.nodup_append.mp h
      rw [eraseDups_concat, if_neg fun hmem => hk k hmem k List.mem_cons_self rfl, ih hks]

theorem eraseDups_filter (p : κ → Bool) (ks : List κ) :
    (ks.filter p).eraseDups = ks.eraseDups.filter p := by
  induction ks using List.reverseRecOn with
  | nil => rfl
  | append_singleton ks k ih =>
      rw [List.filter_append, eraseDups_concat]
      by_cases hp : p k = true
      · rw [List.filter_cons_of_pos hp, List.filter_nil, eraseDups_concat, ih]
        by_cases hk : k ∈ ks
        · rw [if_pos (List.mem_filter.mpr ⟨hk, hp⟩), if_pos hk]
        · rw [if_neg fun h => hk (List.mem_of_mem_filter h), if_neg hk, List.filter_append,
            List.filter_cons_of_pos hp, List.filter_nil]
      · rw [List.filter_cons_of_neg hp, List.filter_nil, List.append_nil, ih]
        by_cases hk : k ∈ ks
        · rw [if_pos hk]
        · rw [if_neg hk, List.filter_append, List.filter_cons_of_neg hp, List.filter_nil, List.append_nil]

/-- Enter a row: change what stands under its key, or `start` where nothing does. -/
def enter {γ : Type w} (start : α) (key : γ → κ) (step : α → γ → α) (m : OrderedMap κ α) (r : γ) :
    OrderedMap κ α :=
  m.insert (key r) (step ((m.get? (key r)).getD start) r)

section
variable {γ : Type w} {start : α} {key : γ → κ} {step : α → γ → α}

/-- After rows have been entered, a key holds what its own rows made of what it held before. -/
theorem get?_foldl_enter (rows : List γ) (m : OrderedMap κ α) (k : κ) :
    (rows.foldl (enter start key step) m).get? k =
      if (rows.filter fun r => key r = k) = [] then m.get? k
      else some ((rows.filter fun r => key r = k).foldl step ((m.get? k).getD start)) := by
  induction rows generalizing m with
  | nil => rfl
  | cons r rows ih =>
      rw [List.foldl_cons, ih, enter, get?_insert]
      by_cases hk : key r = k
      · subst hk
        by_cases hnil : (rows.filter fun x => key x = key r) = []
        · simp [hnil]
        · simp [hnil]
      · simp [hk]

/-- The keys of rows stand in the order of their first rows. -/
theorem keys_foldl_enter (rows : List γ) :
    (rows.foldl (enter start key step) empty).keys = (rows.map key).eraseDups := by
  induction rows using List.reverseRecOn with
  | nil => rfl
  | append_singleton rows r ih =>
      rw [List.foldl_append, List.foldl_cons, List.foldl_nil, enter, keys_insert, ih, List.map_append,
        List.map_singleton, eraseDups_concat]
      simp only [List.mem_eraseDups]

end

/-! ## Values in the order of their keys -/

/-- The values of a map with numbers as keys, by ascending key. -/
def inOrder (m : OrderedMap Int α) : List α :=
  (m.entries.mergeSort fun a b => decide (a.1 ≤ b.1)).map Prod.snd

theorem inOrder_map (f : α → β) (m : OrderedMap Int α) : (m.map f).inOrder = m.inOrder.map f := by
  have hsort : (m.entries.mergeSort fun a b => decide (a.1 ≤ b.1)).map (fun e => (e.1, f e.2)) =
      (m.entries.map fun e => (e.1, f e.2)).mergeSort fun a b => decide (a.1 ≤ b.1) :=
    List.map_mergeSort fun _ _ _ _ => rfl
  show ((m.entries.map fun e => (e.1, f e.2)).mergeSort fun a b => decide (a.1 ≤ b.1)).map Prod.snd = _
  rw [← hsort, inOrder, List.map_map, List.map_map]
  rfl

theorem mem_inOrder_iff {m : OrderedMap Int α} {a : α} : a ∈ m.inOrder ↔ a ∈ m.values :=
  ((List.mergeSort_perm _ _).map Prod.snd).mem_iff

/-! ## Maps made from entries -/

theorem insertEntries_of_not_mem {k : κ} (a : α) :
    ∀ {es : List (κ × α)}, k ∉ es.map Prod.fst → insertEntries k a es = es ++ [(k, a)]
  | [], _ => rfl
  | e :: es, h => by
    rw [List.map_cons, List.mem_cons, not_or] at h
    rw [insertEntries, if_neg (Ne.symm h.1), insertEntries_of_not_mem a h.2, List.cons_append]

/-- Writing to a free key puts the value behind the others. -/
theorem values_insert_of_free {m : OrderedMap κ α} {k : κ} (hfree : m.contains k = false) (a : α) :
    (m.insert k a).values = m.values ++ [a] := by
  have hnot : k ∉ m.entries.map Prod.fst :=
    get?_eq_none_iff.mp (contains_eq_false_iff.mp hfree)
  have hentries : (m.insert k a).entries = m.entries ++ [(k, a)] := insertEntries_of_not_mem a hnot
  rw [values, hentries, List.map_append]
  rfl

theorem entries_foldl_insert {es : List (κ × α)} {m : OrderedMap κ α}
    (h : (m.keys ++ es.map Prod.fst).Nodup) :
    (es.foldl (fun n e => n.insert e.1 e.2) m).entries = m.entries ++ es := by
  induction es generalizing m with
  | nil => simp
  | cons e es ih =>
      have hnot : e.1 ∉ m.entries.map Prod.fst := by
        intro hm
        exact (List.nodup_append.mp h).2.2 e.1 hm e.1 (by simp) rfl
      have hins : (m.insert e.1 e.2).entries = m.entries ++ [e] :=
        insertEntries_of_not_mem e.2 hnot
      rw [List.foldl_cons, ih, hins, List.append_assoc, List.singleton_append]
      rw [keys, hins, List.map_append, List.append_assoc]
      simpa [keys] using h

/-- Writes to distinct keys become the entries as they stand. -/
theorem entries_ofList {es : List (κ × α)} (h : (es.map Prod.fst).Nodup) :
    (ofList es).entries = es :=
  entries_foldl_insert (m := empty) (by simpa using h)

theorem ofList_concat (es : List (κ × α)) (e : κ × α) : ofList (es ++ [e]) = (ofList es).insert e.1 e.2 :=
  List.foldl_concat ..

theorem contains_ofList_iff {es : List (κ × α)} {k : κ} :
    (ofList es).contains k = true ↔ k ∈ es.map Prod.fst := by
  induction es using List.reverseRecOn with
  | nil => simp [ofList, contains]
  | append_singleton es e ih =>
      rw [ofList_concat, contains, get?_insert, List.map_append, List.mem_append, ← ih, contains]
      by_cases hk : e.1 = k
      · simp [hk]
      · simp [hk, Ne.symm hk]

/-- A map made from distinct keys looks up exactly what was written. -/
theorem get?_ofList {es : List (κ × α)} (h : (es.map Prod.fst).Nodup) {k : κ} {a : α} :
    (ofList es).get? k = some a ↔ (k, a) ∈ es := by
  rw [← mem_entries_iff_get?, entries_ofList h]

/-- After a run of writes to keys that are not there yet, a key holds what it held before the run,
or else what the first write to it gave it. -/
theorem get?_foldl_insertNew {γ : Type w} (key : γ → κ) (value : γ → α) (k : κ) (cs : List γ)
    (m : OrderedMap κ α) :
    (cs.foldl (fun n c => n.insertNew (key c) (value c)) m).get? k =
      (m.get? k).or ((cs.find? fun c => decide (key c = k)).map value) := by
  induction cs generalizing m with
  | nil => simp
  | cons c cs ih =>
      rw [List.foldl_cons, ih, get?_insertNew, Option.or_assoc, List.find?_cons]
      by_cases hk : key c = k
      · simp [hk]
      · simp [hk]

end SchemaSync.OrderedMap
