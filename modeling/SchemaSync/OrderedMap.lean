/-!
# Ordered maps

A finite map that remembers the order in which its keys were first entered. Writing to a key that is
present changes its value and keeps its place; writing to a new key puts it at the end; a key can be
renamed where it stands. The view is the list of entries, and no key occurs in it twice.

The main statements say what `insert` and `rename` do to the list of keys and to look-ups.
-/

namespace SchemaSync

universe u v w

/-- A map from `κ` to `α` whose entries stand in the order of their first insertion. -/
structure OrderedMap (κ : Type u) (α : Type v) where
  /-- The entries, oldest first. -/
  entries : List (κ × α)
  /-- No key occurs twice. -/
  nodup : (entries.map Prod.fst).Nodup

namespace OrderedMap

variable {κ : Type u} {α : Type v} {β : Type w}

/-- Two ordered maps with the same entries in the same order are equal. -/
@[ext] theorem ext {m n : OrderedMap κ α} (h : m.entries = n.entries) : m = n := by
  cases m; cases n; cases h; rfl

instance [DecidableEq κ] [DecidableEq α] : DecidableEq (OrderedMap κ α) := fun m n =>
  decidable_of_iff (m.entries = n.entries) ⟨ext, fun h => h ▸ rfl⟩

def empty : OrderedMap κ α := ⟨[], List.nodup_nil⟩

instance : EmptyCollection (OrderedMap κ α) := ⟨empty⟩
instance : Inhabited (OrderedMap κ α) := ⟨empty⟩

def keys (m : OrderedMap κ α) : List κ := m.entries.map Prod.fst

def values (m : OrderedMap κ α) : List α := m.entries.map Prod.snd

def isEmpty (m : OrderedMap κ α) : Bool := m.entries.isEmpty

def map (f : α → β) (m : OrderedMap κ α) : OrderedMap κ β where
  entries := m.entries.map fun e => (e.1, f e.2)
  nodup := by simpa [List.map_map, Function.comp_def] using m.nodup

@[simp] theorem keys_empty : (empty : OrderedMap κ α).keys = [] := rfl

@[simp] theorem keys_map (f : α → β) (m : OrderedMap κ α) : (m.map f).keys = m.keys := by
  simp [keys, map, List.map_map, Function.comp_def]

@[simp] theorem values_map (f : α → β) (m : OrderedMap κ α) :
    (m.map f).values = m.values.map f := by
  simp [values, map, List.map_map, Function.comp_def]

theorem nodup_keys (m : OrderedMap κ α) : m.keys.Nodup := m.nodup

def filterMap (f : κ → α → Option β) (m : OrderedMap κ α) : OrderedMap κ β where
  entries := m.entries.filterMap fun e => (f e.1 e.2).map fun b => (e.1, b)
  nodup := by
    refine m.nodup.sublist ?_
    induction m.entries with
    | nil => exact List.Sublist.slnil
    | cons e es ih =>
      cases h : f e.1 e.2 with
      | none => simpa [List.filterMap_cons, h] using ih.cons _
      | some b => simpa [List.filterMap_cons, h] using ih.cons_cons e.1

def filter (p : κ → α → Bool) (m : OrderedMap κ α) : OrderedMap κ α where
  entries := m.entries.filter fun e => p e.1 e.2
  nodup := m.nodup.sublist (List.filter_sublist.map Prod.fst)

variable [DecidableEq κ]

def findEntry (k : κ) : List (κ × α) → Option α
  | [] => none
  | e :: es => if e.1 = k then some e.2 else findEntry k es

def get? (m : OrderedMap κ α) (k : κ) : Option α := findEntry k m.entries

def contains (m : OrderedMap κ α) (k : κ) : Bool := (m.get? k).isSome

/-! ### Looking up -/

theorem isSome_findEntry_iff (k : κ) :
    ∀ es : List (κ × α), (findEntry k es).isSome = true ↔ k ∈ es.map Prod.fst
  | [] => by simp [findEntry]
  | e :: es => by
    by_cases h : e.1 = k
    · simp [findEntry, h]
    · have h' : k ≠ e.1 := fun x => h x.symm
      rw [findEntry, if_neg h, isSome_findEntry_iff k es, List.map_cons, List.mem_cons]
      simp [h']

/-- A key is present exactly when it is among the keys. -/
theorem contains_iff_mem_keys {m : OrderedMap κ α} {k : κ} :
    m.contains k = true ↔ k ∈ m.keys := isSome_findEntry_iff k m.entries

theorem findEntry_map (f : α → β) (k : κ) :
    ∀ es : List (κ × α), findEntry k (es.map fun e => (e.1, f e.2)) = (findEntry k es).map f
  | [] => rfl
  | e :: es => by
    by_cases h : e.1 = k
    · simp [findEntry, h]
    · simp [findEntry, h, findEntry_map f k es]

@[simp] theorem get?_map (f : α → β) (m : OrderedMap κ α) (k : κ) :
    (m.map f).get? k = (m.get? k).map f := findEntry_map f k m.entries

/-! ### Insertion -/

/-- Write `a` at `k` in a list of entries: in place if the key is there, else at the end. -/
def insertEntries (k : κ) (a : α) : List (κ × α) → List (κ × α)
  | [] => [(k, a)]
  | e :: es => if e.1 = k then (k, a) :: es else e :: insertEntries k a es

theorem keys_insertEntries (k : κ) (a : α) :
    ∀ es : List (κ × α), (insertEntries k a es).map Prod.fst =
      if k ∈ es.map Prod.fst then es.map Prod.fst else es.map Prod.fst ++ [k]
  | [] => by simp [insertEntries]
  | e :: es => by
    by_cases h : e.1 = k
    · simp [insertEntries, h]
    · have h' : k ≠ e.1 := fun x => h x.symm
      rw [insertEntries, if_neg h, List.map_cons, keys_insertEntries k a es]
      by_cases m : k ∈ es.map Prod.fst
      · rw [if_pos m, if_pos (by simp [m]), List.map_cons]
      · rw [if_neg m, if_neg (by simpa [h'] using m), List.map_cons, List.cons_append]

omit [DecidableEq κ] in
theorem nodup_append_singleton {ks : List κ} {k : κ} (h : ks.Nodup) (n : k ∉ ks) :
    (ks ++ [k]).Nodup := by
  rw [List.nodup_append]
  refine ⟨h, by simp, ?_⟩
  intro a ha b hb
  cases List.mem_singleton.1 hb
  rintro rfl
  exact n ha

/-- Write a value at a key: in place if the key is there, else at the end. -/
def insert (m : OrderedMap κ α) (k : κ) (a : α) : OrderedMap κ α where
  entries := insertEntries k a m.entries
  nodup := by
    rw [keys_insertEntries]
    split
    · exact m.nodup
    · next h => exact nodup_append_singleton m.nodup h

/-- The map that a list of writes makes, first to last. -/
def ofList (es : List (κ × α)) : OrderedMap κ α :=
  es.foldl (fun m e => m.insert e.1 e.2) empty

/-- An insertion adds its key at the end, unless the key is there. -/
theorem keys_insert (m : OrderedMap κ α) (k : κ) (a : α) :
    (m.insert k a).keys = if k ∈ m.keys then m.keys else m.keys ++ [k] :=
  keys_insertEntries k a m.entries

theorem findEntry_insertEntries (k j : κ) (a : α) :
    ∀ es : List (κ × α),
      findEntry j (insertEntries k a es) = if k = j then some a else findEntry j es
  | [] => by simp [insertEntries, findEntry]
  | e :: es => by
    by_cases h : e.1 = k
    · by_cases hj : k = j
      · simp [insertEntries, h, findEntry, hj]
      · simp [insertEntries, h, findEntry, hj]
    · rw [insertEntries, if_neg h, findEntry, findEntry_insertEntries k j a es, findEntry]
      by_cases hj : e.1 = j
      · have : k ≠ j := fun x => h (hj.trans x.symm)
        simp [hj, this]
      · simp [hj]

/-- After a write, its key holds the value and every other key what it held. -/
theorem get?_insert (m : OrderedMap κ α) (k j : κ) (a : α) :
    (m.insert k a).get? j = if k = j then some a else m.get? j :=
  findEntry_insertEntries k j a m.entries

/-- Write a value at a key that is not there yet; a key that is there keeps its value. -/
def insertNew (m : OrderedMap κ α) (k : κ) (a : α) : OrderedMap κ α :=
  if m.contains k then m else m.insert k a

/-! ### Removal and renaming -/

def erase (m : OrderedMap κ α) (k : κ) : OrderedMap κ α := m.filter fun j _ => !decide (j = k)

def renameKey (old new k : κ) : κ := if k = old then new else k

theorem nodup_map_renameKey (old : κ) {new : κ} {ks : List κ} (h : ks.Nodup) (n : new ∉ ks) :
    (ks.map (renameKey old new)).Nodup := by
  refine List.Pairwise.map _ (S := (· ≠ ·)) ?_
    (h.imp_of_mem (S := fun a b => a ≠ b ∧ a ∈ ks ∧ b ∈ ks) fun ha hb hab => ⟨hab, ha, hb⟩)
  rintro a b ⟨hab, ha, hb⟩
  simp only [renameKey]
  split <;> split <;> rename_i h₁ h₂
  · exact fun _ => hab (h₁.trans h₂.symm)
  · exact fun x => n (x ▸ hb)
  · exact fun x => n (x ▸ ha)
  · exact hab

/-- Rename the key `old` to `new` where it stands. A map that holds `new` stays as it is. -/
def rename (m : OrderedMap κ α) (old new : κ) : OrderedMap κ α :=
  if h : new ∈ m.keys then m else
    { entries := m.entries.map fun e => (renameKey old new e.1, e.2)
      nodup := by
        simpa [List.map_map, Function.comp_def] using nodup_map_renameKey old m.nodup h }

/-- Renaming to a free key changes that one key and no position. -/
theorem keys_rename {m : OrderedMap κ α} {old new : κ} (h : new ∉ m.keys) :
    (m.rename old new).keys = m.keys.map (renameKey old new) := by
  rw [rename, dif_neg h]
  simp [keys, List.map_map, Function.comp_def]

end OrderedMap
end SchemaSync
