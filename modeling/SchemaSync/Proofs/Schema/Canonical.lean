import SchemaSync.Proofs.Schema.Sound
import SchemaSync.Proofs.Text.Joined
import SchemaSync.Proofs.Text.Percent
import SchemaSync.Schema.Canonical

/-!
# Canonical forms and what they stand for

The canonical forms leave out the order of columns, of constraints and of repetitions, so each is a
function of a set: `Table.keySet`, `Table.uniqueSets` and `Table.references` read a table as such sets,
and tables that read the same have the same canonical forms.

The other direction depends on the delimiters. The words of a set of column names can be read back,
since no encoded name holds a comma (`canonicalColumns_eq_iff`). The form of all unique constraints of a
table uses the same comma between columns and between constraints, and so stands for the words of all
constraints run together (`constraintWords`) and for nothing more. The form of a foreign key lists its
columns on either side by themselves, and so stands for an `Outline`, in which columns are not paired.
-/

namespace SchemaSync

/-! ## Sorted texts without repetitions -/

theorem pairwise_sortTexts (texts : List String) : (sortTexts texts).Pairwise (· ≤ ·) :=
  List.pairwise_mergeSort' (· ≤ ·) texts

theorem mem_foldl_distinct {x : String} :
    ∀ {texts seen : List String},
      x ∈ texts.foldl (fun seen t => if seen.contains t then seen else seen ++ [t]) seen ↔
        x ∈ seen ∨ x ∈ texts
  | [], seen => by simp
  | t :: texts, seen => by
    rw [List.foldl_cons, mem_foldl_distinct, List.mem_cons]
    by_cases ht : seen.contains t = true
    · have hmem : t ∈ seen := by simpa using ht
      rw [if_pos ht]
      constructor
      · intro h
        rcases h with hx | hx
        · exact Or.inl hx
        · exact Or.inr (Or.inr hx)
      · intro h
        rcases h with hx | rfl | hx
        · exact Or.inl hx
        · exact Or.inl hmem
        · exact Or.inr hx
    · rw [if_neg ht, List.mem_append, List.mem_singleton, or_assoc]

theorem mem_distinctTexts {texts : List String} {x : String} : x ∈ distinctTexts texts ↔ x ∈ texts := by
  unfold distinctTexts
  rw [mem_foldl_distinct]
  simp

theorem nodup_foldl_distinct :
    ∀ {texts seen : List String}, seen.Nodup →
      (texts.foldl (fun seen t => if seen.contains t then seen else seen ++ [t]) seen).Nodup
  | [], _, h => h
  | t :: texts, seen, h => by
    rw [List.foldl_cons]
    apply nodup_foldl_distinct
    by_cases ht : seen.contains t = true
    · rw [if_pos ht]
      exact h
    · rw [if_neg ht]
      exact OrderedMap.nodup_append_singleton h (by simpa using ht)

theorem nodup_distinctTexts (texts : List String) : (distinctTexts texts).Nodup :=
  nodup_foldl_distinct List.nodup_nil

theorem mem_sortTexts_distinctTexts {texts : List String} {x : String} :
    x ∈ sortTexts (distinctTexts texts) ↔ x ∈ texts := by
  rw [(perm_sortTexts _).mem_iff, mem_distinctTexts]

theorem nodup_sortTexts_distinctTexts (texts : List String) :
    (sortTexts (distinctTexts texts)).Nodup :=
  (perm_sortTexts _).nodup_iff.mpr (nodup_distinctTexts texts)

/-- Sorted without repetitions, a list of texts is its set of members. -/
theorem sortTexts_distinctTexts_eq {texts sorted : List String} (hsorted : sorted.Pairwise (· ≤ ·))
    (hnodup : sorted.Nodup) (h : ∀ x, x ∈ texts ↔ x ∈ sorted) :
    sortTexts (distinctTexts texts) = sorted := by
  apply List.Perm.eq_of_pairwise' (pairwise_sortTexts _) hsorted
  rw [List.perm_ext_iff_of_nodup (nodup_sortTexts_distinctTexts texts) hnodup]
  intro x
  rw [mem_sortTexts_distinctTexts, h]

/-! ## Lists of columns -/

/-- The words of a set of names: the encoded names in order, or one empty word for no name. -/
def nameWords (names : Finset String) : List String :=
  if names = ∅ then [""] else (names.image Text.Percent.encode).sort

theorem nameWords_ne_nil (names : Finset String) : nameWords names ≠ [] := by
  unfold nameWords
  split
  · simp
  · next hne =>
    intro hnil
    have hlength := congrArg List.length hnil
    rw [Finset.length_sort, List.length_nil, Finset.card_eq_zero, Finset.image_eq_empty] at hlength
    exact hne hlength

theorem commaFree_nameWords (names : Finset String) : Text.CommaFree (nameWords names) := by
  intro w hw
  unfold nameWords at hw
  split at hw
  · rw [List.mem_singleton.mp hw]
    decide
  · rw [Finset.mem_sort, Finset.mem_image] at hw
    obtain ⟨name, -, rfl⟩ := hw
    exact Text.Percent.comma_not_mem_encode name

theorem nameWords_inj {m n : Finset String} (hm : m ≠ ∅) (hn : n ≠ ∅)
    (h : nameWords m = nameWords n) : m = n := by
  unfold nameWords at h
  rw [if_neg hm, if_neg hn] at h
  have himage := congrArg List.toFinset h
  rw [Finset.sort_toFinset, Finset.sort_toFinset] at himage
  exact Finset.image_injective Text.Percent.encode_injective himage

/-- The words of no name are those of the empty name, and no other sets have the same words. -/
theorem nameWords_eq_iff {m n : Finset String} :
    nameWords m = nameWords n ↔ m = n ∨ m ⊆ {""} ∧ n ⊆ {""} := by
  have hsame : nameWords ∅ = nameWords {""} := by
    simp [nameWords, Text.Percent.encode, Text.Percent.encodeChars]
  have hne : ({""} : Finset String) ≠ ∅ := Finset.singleton_ne_empty ""
  simp only [Finset.subset_singleton_iff]
  constructor
  · intro h
    by_cases hm : m = ∅
    · by_cases hn : n = ∅
      · exact Or.inl (hm.trans hn.symm)
      · rw [hm, hsame] at h
        exact Or.inr ⟨Or.inl hm, Or.inr (nameWords_inj hne hn h).symm⟩
    · by_cases hn : n = ∅
      · rw [hn, hsame] at h
        exact Or.inr ⟨Or.inr (nameWords_inj hm hne h), Or.inl hn⟩
      · exact Or.inl (nameWords_inj hm hn h)
  · intro h
    rcases h with rfl | ⟨rfl | rfl, rfl | rfl⟩
    · rfl
    · rfl
    · exact hsame
    · exact hsame.symm
    · rfl

/-- The canonical form of columns of different names is a function of the set of their names. -/
theorem canonicalColumns_eq_joined {columns : List Column} (h : (columnNames columns).Nodup) :
    canonicalColumns columns = ",".intercalate (nameWords (columnNames columns).toFinset) := by
  unfold canonicalColumns nameWords
  by_cases hempty : columnNames columns = []
  · -- The empty list of names joins to the same text as one empty word.
    rw [hempty, if_pos (by simp), List.map_nil]
    simp [sortTexts]
  · rw [if_neg (by simpa using hempty)]
    have hnodup : ((columnNames columns).map Text.Percent.encode).Nodup :=
      h.map Text.Percent.encode_injective
    have hsort : sortTexts ((columnNames columns).map Text.Percent.encode) =
        ((columnNames columns).toFinset.image Text.Percent.encode).sort := by
      apply List.Perm.eq_of_pairwise' (pairwise_sortTexts _) (Finset.pairwise_sort _ _)
      rw [List.perm_ext_iff_of_nodup ((perm_sortTexts _).nodup_iff.mpr hnodup)
        (Finset.sort_nodup _ _)]
      intro x
      rw [(perm_sortTexts _).mem_iff, Finset.mem_sort, Finset.mem_image, List.mem_map]
      simp only [List.mem_toFinset]
    rw [hsort]

/-- **What a canonical list of columns tells apart**: the sets of names, but not the empty set from that of the
empty name. -/
theorem canonicalColumns_eq_iff {a b : List Column} (ha : (columnNames a).Nodup) (hb : (columnNames b).Nodup) :
    canonicalColumns a = canonicalColumns b ↔ (columnNames a).toFinset = (columnNames b).toFinset ∨
      (columnNames a).toFinset ⊆ {""} ∧ (columnNames b).toFinset ⊆ {""} := by
  rw [canonicalColumns_eq_joined ha, canonicalColumns_eq_joined hb,
    Text.joined_inj (commaFree_nameWords _) (commaFree_nameWords _) (nameWords_ne_nil _) (nameWords_ne_nil _),
    nameWords_eq_iff]

theorem toFinset_columnNames_ne_empty {columns : List Column} (h : columns ≠ []) :
    (columnNames columns).toFinset ≠ ∅ := by
  rwa [ne_eq, List.toFinset_eq_empty_iff, columnNames, List.map_eq_nil_iff]

/-- Two lists that both hold a column are told apart by their sets of names. -/
theorem canonicalColumns_eq_iff_of_ne_nil {a b : List Column} (ha : (columnNames a).Nodup)
    (hb : (columnNames b).Nodup) (hane : a ≠ []) (hbne : b ≠ []) :
    canonicalColumns a = canonicalColumns b ↔ (columnNames a).toFinset = (columnNames b).toFinset := by
  rw [canonicalColumns_eq_iff ha hb, or_iff_left_iff_imp]
  intro h
  obtain ⟨hasub, hbsub⟩ := h
  have haname := (Finset.subset_singleton_iff.mp hasub).resolve_left (toFinset_columnNames_ne_empty hane)
  have hbname := (Finset.subset_singleton_iff.mp hbsub).resolve_left (toFinset_columnNames_ne_empty hbne)
  rw [haname, hbname]

/-! ## Tables read as sets -/

def Unique.columnSet (u : Unique) : Finset String := (columnNames u.columns).toFinset

/-- A foreign key without the order of its pairs of columns. -/
structure ForeignKey.Reading where
  /-- The names of each local column and of the foreign column that it refers to. -/
  pairs : Finset (String × String)
  target : String
  onUpdate : Action
  onDelete : Action

theorem ForeignKey.Reading.eq_iff {r q : ForeignKey.Reading} : r = q ↔
    r.pairs = q.pairs ∧ r.target = q.target ∧ r.onUpdate = q.onUpdate ∧ r.onDelete = q.onDelete := by
  cases r
  cases q
  exact ForeignKey.Reading.mk.injEq .. ▸ Iff.rfl

instance : DecidableEq ForeignKey.Reading := fun _ _ =>
  decidable_of_iff _ ForeignKey.Reading.eq_iff.symm

/-- What a foreign key says, whatever the order of its pairs. -/
def ForeignKey.reading (f : ForeignKey) : ForeignKey.Reading where
  pairs := ((columnNames f.localColumns).zip (columnNames f.foreignColumns)).toFinset
  target := f.targetName
  onUpdate := f.onUpdate
  onDelete := f.onDelete

namespace Table

def keySet (t : Table) : Finset String := (columnNames t.primaryKey).toFinset

/-- The unique constraints of a table, each as the set of its column names. -/
def uniqueSets (t : Table) : Finset (Finset String) := (t.uniques.map Unique.columnSet).toFinset

def references (t : Table) : Finset ForeignKey.Reading :=
  (t.foreignKeys.map ForeignKey.reading).toFinset

/-! ## Primary keys -/

theorem perm_primaryKey (t : Table) : t.primaryKey.Perm t.slots.values :=
  (List.mergeSort_perm _ _).map Prod.snd

/-- The columns of a primary key have different names if those in its slots have. -/
theorem nodup_primaryKey {t : Table} (h : (columnNames t.slots.values).Nodup) :
    (columnNames t.primaryKey).Nodup := by
  have hperm : (columnNames t.primaryKey).Perm (columnNames t.slots.values) :=
    t.perm_primaryKey.map Column.name
  exact hperm.nodup_iff.mpr h

theorem Sound.nodup_primaryKey {t : Table} (h : t.Sound) : (columnNames t.primaryKey).Nodup :=
  Table.nodup_primaryKey h.keyNames

theorem Sound.canonicalPrimaryKey_eq {t : Table} (h : t.Sound) :
    t.canonicalPrimaryKey = ",".intercalate (nameWords t.keySet) :=
  canonicalColumns_eq_joined h.nodup_primaryKey

/-- Primary keys over the same columns have the same canonical form. -/
theorem canonicalPrimaryKey_eq_of_keySet_eq {t d : Table} (ht : t.Sound) (hd : d.Sound)
    (h : t.keySet = d.keySet) : t.canonicalPrimaryKey = d.canonicalPrimaryKey := by
  rw [ht.canonicalPrimaryKey_eq, hd.canonicalPrimaryKey_eq, h]

end Table

/-! ## Unique constraints -/

/-- The word lists of a set of constraints, each once, in the order of the joined words. -/
noncomputable def wordGroups (constraints : Finset (Finset String)) : List (List String) :=
  (constraints.image nameWords).toList.mergeSort fun a b =>
    decide (",".intercalate a ≤ ",".intercalate b)

/-- The words of all constraints of a set run together, or one empty word for no constraint. -/
noncomputable def constraintWords (constraints : Finset (Finset String)) : List String :=
  if constraints = ∅ then [""] else (wordGroups constraints).flatten

theorem mem_wordGroups {constraints : Finset (Finset String)} {g : List String} :
    g ∈ wordGroups constraints ↔ ∃ names ∈ constraints, nameWords names = g := by
  unfold wordGroups
  rw [List.mem_mergeSort, Finset.mem_toList, Finset.mem_image]

theorem wordGroups_ne_nil {constraints : Finset (Finset String)} {g : List String}
    (h : g ∈ wordGroups constraints) : g ≠ [] := by
  obtain ⟨names, -, rfl⟩ := mem_wordGroups.mp h
  exact nameWords_ne_nil names

theorem commaFree_wordGroups {constraints : Finset (Finset String)} {g : List String}
    (h : g ∈ wordGroups constraints) : Text.CommaFree g := by
  obtain ⟨names, -, rfl⟩ := mem_wordGroups.mp h
  exact commaFree_nameWords names

theorem commaFree_constraintWords (constraints : Finset (Finset String)) :
    Text.CommaFree (constraintWords constraints) := by
  unfold constraintWords
  split
  · intro w hw
    rw [List.mem_singleton.mp hw]
    decide
  · intro w hw
    obtain ⟨g, hg, hw⟩ := List.mem_flatten.mp hw
    exact commaFree_wordGroups hg w hw

theorem constraintWords_ne_nil (constraints : Finset (Finset String)) :
    constraintWords constraints ≠ [] := by
  unfold constraintWords
  split
  · simp
  · next hne =>
    obtain ⟨names, hnames⟩ := Finset.nonempty_iff_ne_empty.mpr hne
    have hmem : nameWords names ∈ wordGroups constraints := mem_wordGroups.mpr ⟨names, hnames, rfl⟩
    intro hnil
    exact nameWords_ne_nil names (List.flatten_eq_nil_iff.mp hnil _ hmem)

/-- The joined groups stand in order, each once. -/
theorem pairwise_joined_wordGroups (constraints : Finset (Finset String)) :
    ((wordGroups constraints).map (String.intercalate ",")).Pairwise (· ≤ ·) := by
  rw [List.pairwise_map]
  exact List.pairwise_mergeSort' (Order.Preimage (String.intercalate ",") (· ≤ ·)) _

theorem nodup_joined_wordGroups (constraints : Finset (Finset String)) :
    ((wordGroups constraints).map (String.intercalate ",")).Nodup := by
  have hnodup : (wordGroups constraints).Nodup :=
    (List.mergeSort_perm _ _).nodup_iff.mpr (Finset.nodup_toList _)
  refine hnodup.map_on ?_
  intro g hg k hk hjoined
  exact (Text.joined_inj (commaFree_wordGroups hg) (commaFree_wordGroups hk) (wordGroups_ne_nil hg)
    (wordGroups_ne_nil hk)).mp hjoined

theorem Unique.canonical_eq {u : Unique} (h : (columnNames u.columns).Nodup) :
    u.canonical = ",".intercalate (nameWords u.columnSet) := canonicalColumns_eq_joined h

namespace Table

/-- The canonical form of the unique constraints stands for the words of all of them run together. -/
theorem Sound.canonicalUniques_eq {t : Table} (h : t.Sound) :
    t.canonicalUniques = ",".intercalate (constraintWords t.uniqueSets) := by
  have hforms : sortTexts (distinctTexts (t.uniques.map Unique.canonical)) =
      (wordGroups t.uniqueSets).map (String.intercalate ",") := by
    apply sortTexts_distinctTexts_eq (pairwise_joined_wordGroups _) (nodup_joined_wordGroups _)
    intro x
    rw [List.mem_map, List.mem_map]
    constructor
    · intro h
      rcases h with ⟨u, hu, rfl⟩
      refine ⟨nameWords u.columnSet, mem_wordGroups.mpr ⟨u.columnSet, ?_, rfl⟩, ?_⟩
      · rw [uniqueSets, List.mem_toFinset]
        exact List.mem_map_of_mem hu
      · exact (Unique.canonical_eq (h.unique u hu).2).symm
    · intro h
      rcases h with ⟨g, hg, rfl⟩
      obtain ⟨names, hnames, rfl⟩ := mem_wordGroups.mp hg
      rw [uniqueSets, List.mem_toFinset] at hnames
      obtain ⟨u, hu, rfl⟩ := List.mem_map.mp hnames
      exact ⟨u, hu, Unique.canonical_eq (h.unique u hu).2⟩
  unfold canonicalUniques constraintWords
  rw [hforms]
  split
  · next hempty =>
    simp [hempty, wordGroups]
  · exact Text.joined_groups fun g hg => wordGroups_ne_nil hg

/-- What the canonical forms of the unique constraints of two tables tell apart. -/
theorem canonicalUniques_eq_iff {t d : Table} (ht : t.Sound) (hd : d.Sound) :
    t.canonicalUniques = d.canonicalUniques ↔
      constraintWords t.uniqueSets = constraintWords d.uniqueSets := by
  rw [ht.canonicalUniques_eq, hd.canonicalUniques_eq]
  exact Text.joined_inj (commaFree_constraintWords _) (commaFree_constraintWords _)
    (constraintWords_ne_nil _) (constraintWords_ne_nil _)

end Table

/-! ## Foreign keys -/

/-- A foreign key without the pairing of its columns. -/
structure ForeignKey.Outline where
  localNames : Finset String
  foreignNames : Finset String
  target : String
  onUpdate : Action
  onDelete : Action
  deriving DecidableEq

/-- What a foreign key says but for the pairing of its columns. -/
def ForeignKey.Reading.outline (r : ForeignKey.Reading) : ForeignKey.Outline where
  localNames := r.pairs.image Prod.fst
  foreignNames := r.pairs.image Prod.snd
  target := r.target
  onUpdate := r.onUpdate
  onDelete := r.onDelete

/-- The canonical form of the foreign keys that have an outline. -/
def ForeignKey.Outline.text (o : ForeignKey.Outline) : String :=
  ",".intercalate (nameWords o.localNames) ++ " -> " ++ ",".intercalate (nameWords o.foreignNames) ++
    " on " ++ o.target ++ " | " ++ o.onDelete.keyword ++ " | " ++ o.onUpdate.keyword

/-- The canonical form of the foreign keys that have some outlines. -/
def outlinesText (outlines : Finset ForeignKey.Outline) : String :=
  ",".intercalate (outlines.image ForeignKey.Outline.text).sort

/-- A foreign key that pairs as many local as foreign columns, no name twice on either side. -/
structure ForeignKey.Distinct (f : ForeignKey) : Prop where
  length_eq : f.foreignColumns.length = f.localColumns.length
  localNames : (columnNames f.localColumns).Nodup
  foreignNames : (columnNames f.foreignColumns).Nodup

theorem Snapshot.Sound.distinct {s : Snapshot} (h : s.Sound) {name : String} {t : Table}
    (ht : s.tables.get? name = some t) {f : ForeignKey} (hf : f ∈ t.foreignKeys) : f.Distinct := by
  obtain ⟨-, hverified, -, hlocal⟩ := (h.table name t ht).2.foreignKey f hf
  obtain ⟨-, -, -, hforeign⟩ := h.target name t ht f hf
  exact ⟨hverified.length_eq, hlocal, hforeign⟩

namespace ForeignKey

variable {f : ForeignKey}

theorem Distinct.toFinset_local (h : f.Distinct) :
    (columnNames f.localColumns).toFinset = f.reading.pairs.image Prod.fst := by
  have hlength : (columnNames f.localColumns).length ≤ (columnNames f.foreignColumns).length := by
    simp [columnNames, h.length_eq]
  have hlocal : ((columnNames f.localColumns).zip (columnNames f.foreignColumns)).map Prod.fst =
      columnNames f.localColumns := List.map_fst_zip hlength
  rw [← hlocal]
  ext name
  simp [reading]

theorem Distinct.toFinset_foreign (h : f.Distinct) :
    (columnNames f.foreignColumns).toFinset = f.reading.pairs.image Prod.snd := by
  have hlength : (columnNames f.foreignColumns).length ≤ (columnNames f.localColumns).length := by
    simp [columnNames, h.length_eq]
  have hforeign : ((columnNames f.localColumns).zip (columnNames f.foreignColumns)).map Prod.snd =
      columnNames f.foreignColumns := List.map_snd_zip hlength
  rw [← hforeign]
  ext name
  simp [reading]

/-- The canonical form of a foreign key is the text of its outline. -/
theorem Distinct.canonical_eq (h : f.Distinct) : f.canonical = f.reading.outline.text := by
  unfold canonical
  rw [canonicalColumns_eq_joined h.localNames, canonicalColumns_eq_joined h.foreignNames,
    h.toFinset_local, h.toFinset_foreign]
  rfl

end ForeignKey

namespace Table

def outlines (t : Table) : Finset ForeignKey.Outline :=
  t.references.image ForeignKey.Reading.outline

theorem mem_outlines {t : Table} {o : ForeignKey.Outline} :
    o ∈ t.outlines ↔ ∃ f ∈ t.foreignKeys, f.reading.outline = o := by
  simp [outlines, references]

/-- The canonical form of the foreign keys stands for their outlines. -/
theorem canonicalForeignKeys_eq {t : Table} (ht : ∀ f ∈ t.foreignKeys, f.Distinct) :
    t.canonicalForeignKeys = outlinesText t.outlines := by
  have hforms : sortTexts (distinctTexts (t.foreignKeys.map ForeignKey.canonical)) =
      (t.outlines.image ForeignKey.Outline.text).sort := by
    apply sortTexts_distinctTexts_eq (Finset.pairwise_sort _ _) (Finset.sort_nodup _ _)
    intro x
    rw [Finset.mem_sort, Finset.mem_image, List.mem_map]
    constructor
    · intro h
      rcases h with ⟨f, hf, rfl⟩
      exact ⟨f.reading.outline, mem_outlines.mpr ⟨f, hf, rfl⟩, (ht f hf).canonical_eq.symm⟩
    · intro h
      rcases h with ⟨o, ho, rfl⟩
      obtain ⟨f, hf, rfl⟩ := mem_outlines.mp ho
      exact ⟨f, hf, (ht f hf).canonical_eq⟩
  unfold canonicalForeignKeys outlinesText
  rw [hforms]

/-- Foreign keys that say the same, whatever their order and repetitions, have the same canonical
form. -/
theorem canonicalForeignKeys_eq_of_references_eq {t d : Table}
    (ht : ∀ f ∈ t.foreignKeys, f.Distinct) (hd : ∀ f ∈ d.foreignKeys, f.Distinct)
    (h : t.references = d.references) : t.canonicalForeignKeys = d.canonicalForeignKeys := by
  rw [canonicalForeignKeys_eq ht, canonicalForeignKeys_eq hd, outlines, outlines, h]

end Table
end SchemaSync
