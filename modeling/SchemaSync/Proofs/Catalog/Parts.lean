import SchemaSync.Proofs.Catalog.Mutation
import SchemaSync.Proofs.Schema.Verified

/-!
# The parts of a table

What a mutation does to the primary key slots, indexes, unique constraints and foreign keys of a table
is said once for each of the four, and no more than one of them changes at a time. Parts that have been
made are never changed again, and no column moves to another table. So each part of a table stays what
it was checked to be when it was made; `Catalog.Owned` collects this, and `Catalog.Mutation.owned` is the
main statement.
-/

namespace SchemaSync
namespace Catalog

variable {c d : Catalog}

/-! ## What a mutation does -/

/-- A mutation leaves the slots of a table alone, or fills a free one with a new column of the table. -/
theorem Mutation.slots (h : Mutation c d) (t : TableId) :
    (d.tables.get t).slots = (c.tables.get t).slots ∨
      ∃ slot id, (d.tables.get t).slots = (c.tables.get t).slots.insert slot id ∧
        (c.tables.get t).slots.contains slot = false ∧ c.columns.Issued id ∧
        (c.columns.get id).owner = t ∧ id ∉ (c.tables.get t).slots.values := by
  cases h with
  | snapshot | noTable => exact Or.inl rfl
  | table => exact Or.inl (field_addTable TableEntry.slots (fun _ _ => rfl) t)
  | tableName | column | columnName | index | unique | foreignKey =>
      refine Or.inl (c.tables.field_update _ TableEntry.slots ?_ t)
      intro e
      rfl
  | @slot u slot id hu hid hpos hfree howner hnew =>
      by_cases ht : t = u
      · subst ht
        have hslots : ((c.fillSlot t slot id).tables.get t).slots =
            (c.tables.get t).slots.insert slot id :=
          congrArg TableEntry.slots (Store.get_update_self _ hu)
        exact Or.inr ⟨slot, id, hslots, hfree, hid, howner, hnew⟩
      · exact Or.inl (congrArg TableEntry.slots (Store.get_update_of_ne _ ht))

/-- A mutation leaves the indexes of a table alone, or makes one. -/
theorem Mutation.indexes (h : Mutation c d) (t : TableId) :
    (d.tables.get t).indexes = (c.tables.get t).indexes ∨
      ∃ entry, d = c.addIndex entry ∧ entry.owner = t ∧
        (d.tables.get t).indexes = (c.tables.get t).indexes.insert entry.name c.indexes.next ∧
        (∀ id ∈ entry.columns, c.columns.Issued id) ∧
        c.findIndex? (c.tables.get t).schema entry.name = none ∧
        (c.resolveIndex c.indexes.next entry).verify = .ok () := by
  cases h with
  | snapshot | noTable => exact Or.inl rfl
  | table => exact Or.inl (field_addTable TableEntry.indexes (fun _ _ => rfl) t)
  | tableName | column | columnName | slot | unique | foreignKey =>
      refine Or.inl (c.tables.field_update _ TableEntry.indexes ?_ t)
      intro e
      rfl
  | index entry hu hids hfree hok =>
      by_cases ht : t = entry.owner
      · subst ht
        have hindexes : ((c.addIndex entry).tables.get entry.owner).indexes =
            (c.tables.get entry.owner).indexes.insert entry.name c.indexes.next :=
          congrArg TableEntry.indexes (Store.get_update_self _ hu)
        exact Or.inr ⟨entry, rfl, rfl, hindexes, hids, hfree, hok⟩
      · exact Or.inl (congrArg TableEntry.indexes (Store.get_update_of_ne _ ht))

/-- A mutation leaves the unique constraints of a table alone, or makes one. -/
theorem Mutation.uniques (h : Mutation c d) (t : TableId) :
    (d.tables.get t).uniques = (c.tables.get t).uniques ∨
      ∃ entry, d = c.addUnique entry ∧ entry.owner = t ∧
        (d.tables.get t).uniques = (c.tables.get t).uniques ++ [c.uniques.next] ∧
        (∀ id ∈ entry.columns, c.columns.Issued id) ∧
        (c.resolveUnique c.uniques.next entry).verify = .ok () ∧
        ∀ u ∈ (c.tables.get t).uniques, (c.uniques.get u).columns ≠ entry.columns := by
  cases h with
  | snapshot | noTable => exact Or.inl rfl
  | table => exact Or.inl (field_addTable TableEntry.uniques (fun _ _ => rfl) t)
  | tableName | column | columnName | slot | index | foreignKey =>
      refine Or.inl (c.tables.field_update _ TableEntry.uniques ?_ t)
      intro e
      rfl
  | unique entry hu hids hok hnew =>
      by_cases ht : t = entry.owner
      · subst ht
        have huniques : ((c.addUnique entry).tables.get entry.owner).uniques =
            (c.tables.get entry.owner).uniques ++ [c.uniques.next] :=
          congrArg TableEntry.uniques (Store.get_update_self _ hu)
        exact Or.inr ⟨entry, rfl, rfl, huniques, hids, hok, hnew⟩
      · exact Or.inl (congrArg TableEntry.uniques (Store.get_update_of_ne _ ht))

/-- A mutation leaves the foreign keys of a table alone, or makes one. -/
theorem Mutation.foreignKeys (h : Mutation c d) (t : TableId) :
    (d.tables.get t).foreignKeys = (c.tables.get t).foreignKeys ∨
      ∃ entry, d = c.addForeignKey entry ∧ entry.owner = t ∧
        (d.tables.get t).foreignKeys = (c.tables.get t).foreignKeys ++ [c.foreignKeys.next] ∧
        (c.tables.get entry.target).schema = (c.tables.get t).schema ∧
        (∀ id ∈ entry.localColumns, c.columns.Issued id) ∧
        (∀ id ∈ entry.foreignColumns, c.columns.Issued id) ∧
        (c.resolveForeignKey c.foreignKeys.next entry).verify = .ok () := by
  cases h with
  | snapshot | noTable => exact Or.inl rfl
  | table => exact Or.inl (field_addTable TableEntry.foreignKeys (fun _ _ => rfl) t)
  | tableName | column | columnName | slot | index | unique =>
      refine Or.inl (c.tables.field_update _ TableEntry.foreignKeys ?_ t)
      intro e
      rfl
  | foreignKey entry hu htarget hschema hlocal hforeign hok =>
      by_cases ht : t = entry.owner
      · subst ht
        have hkeys : ((c.addForeignKey entry).tables.get entry.owner).foreignKeys =
            (c.tables.get entry.owner).foreignKeys ++ [c.foreignKeys.next] :=
          congrArg TableEntry.foreignKeys (Store.get_update_self _ hu)
        exact Or.inr ⟨entry, rfl, rfl, hkeys, hschema, hlocal, hforeign, hok⟩
      · exact Or.inl (congrArg TableEntry.foreignKeys (Store.get_update_of_ne _ ht))

/-! ## What has been made stays -/

theorem Mutation.get_index (h : Mutation c d) {i : IndexId} (hi : c.indexes.Issued i) :
    d.indexes.Issued i ∧ d.indexes.get i = c.indexes.get i := by
  cases h with
  | index entry => exact hi.get_add entry
  | _ => exact ⟨hi, rfl⟩

theorem Mutation.get_unique (h : Mutation c d) {u : UniqueId} (hu : c.uniques.Issued u) :
    d.uniques.Issued u ∧ d.uniques.get u = c.uniques.get u := by
  cases h with
  | unique entry => exact hu.get_add entry
  | _ => exact ⟨hu, rfl⟩

theorem Mutation.get_foreignKey (h : Mutation c d) {k : ForeignKeyId} (hk : c.foreignKeys.Issued k) :
    d.foreignKeys.Issued k ∧ d.foreignKeys.get k = c.foreignKeys.get k := by
  cases h with
  | foreignKey entry => exact hk.get_add entry
  | _ => exact ⟨hk, rfl⟩

/-- A column that has been made stays on its table. -/
theorem Mutation.owner_column (h : Mutation c d) {id : ColumnId} (hid : c.columns.Issued id) :
    (d.columns.get id).owner = (c.columns.get id).owner := by
  cases h with
  | column entry => exact congrArg ColumnEntry.owner (hid.get_add entry).2
  | columnName =>
      refine c.columns.field_update _ ColumnEntry.owner ?_ id
      intro e
      rfl
  | _ => rfl

/-! ## Own columns -/

/-- Columns that have been made on a table. -/
def Owns (c : Catalog) (t : TableId) (ids : List ColumnId) : Prop :=
  ∀ id ∈ ids, c.columns.Issued id ∧ (c.columns.get id).owner = t

theorem Mutation.owns (h : Mutation c d) {t : TableId} {ids : List ColumnId} (ho : c.Owns t ids) :
    d.Owns t ids := by
  intro id hid
  obtain ⟨hissued, howner⟩ := ho id hid
  exact ⟨h.issued.2 id hissued, (h.owner_column hissued).trans howner⟩

theorem owns_of_resolved {t : TableId} {ids : List ColumnId} (hids : ∀ id ∈ ids, c.columns.Issued id)
    (howner : ∀ x ∈ ids.map c.column, x.owner = t) : c.Owns t ids :=
  fun id hid => ⟨hids id hid, howner (c.column id) (List.mem_map_of_mem hid)⟩

theorem map_id_resolved (ids : List ColumnId) : (ids.map c.column).map Column.id = ids := by
  rw [List.map_map]
  exact List.map_id ids

end Catalog

open Catalog

variable {c d : Catalog} {t : TableId}

/-- An index of a table, under a name and over columns of the table. -/
structure IndexEntry.Owned (c : Catalog) (t : TableId) (name : String) (e : IndexEntry) : Prop where
  owner : e.owner = t
  name : e.name = name
  columns : c.Owns t e.columns

/-- A unique constraint of a table over columns of the table, none of them twice. -/
structure UniqueEntry.Owned (c : Catalog) (t : TableId) (e : UniqueEntry) : Prop where
  owner : e.owner = t
  columns : c.Owns t e.columns
  nodup : e.columns.Nodup

/-- A foreign key of a table that pairs as many columns of the table as columns of another table, at
least one, and none of them twice. -/
structure ForeignKeyEntry.Owned (c : Catalog) (t : TableId) (e : ForeignKeyEntry) : Prop where
  owner : e.owner = t
  target_ne : e.target ≠ t
  foreign_ne_nil : e.foreignColumns ≠ []
  length_eq : e.foreignColumns.length = e.localColumns.length
  localColumns : c.Owns t e.localColumns
  foreignColumns : c.Owns e.target e.foreignColumns
  localNodup : e.localColumns.Nodup
  foreignNodup : e.foreignColumns.Nodup

theorem IndexEntry.owned_of_verify {id : IndexId} {e : IndexEntry}
    (hids : ∀ id ∈ e.columns, c.columns.Issued id) (hok : (c.resolveIndex id e).verify = .ok ()) :
    e.Owned c e.owner e.name := by
  rw [Index.verify, firstOf_eq_ok_iff, Index.violations_eq_nil_iff] at hok
  exact ⟨rfl, rfl, owns_of_resolved hids hok⟩

theorem UniqueEntry.owned_of_verify {id : UniqueId} {e : UniqueEntry}
    (hids : ∀ id ∈ e.columns, c.columns.Issued id) (hok : (c.resolveUnique id e).verify = .ok ()) :
    e.Owned c e.owner := by
  rw [Unique.verify, firstOf_eq_ok_iff, Unique.violations_eq_nil_iff] at hok
  refine ⟨rfl, owns_of_resolved hids hok.owner, ?_⟩
  have hnodup : ((e.columns.map c.column).map Column.id).Nodup := hok.nodup
  rwa [map_id_resolved] at hnodup

theorem ForeignKeyEntry.owned_of_verify {id : ForeignKeyId} {e : ForeignKeyEntry}
    (hlocal : ∀ id ∈ e.localColumns, c.columns.Issued id)
    (hforeign : ∀ id ∈ e.foreignColumns, c.columns.Issued id)
    (hok : (c.resolveForeignKey id e).verify = .ok ()) : e.Owned c e.owner := by
  rw [ForeignKey.verify, firstOf_eq_ok_iff, ForeignKey.violations_eq_nil_iff] at hok
  have hlength : (e.foreignColumns.map c.column).length = (e.localColumns.map c.column).length :=
    hok.length_eq
  have hlocalNodup : ((e.localColumns.map c.column).map Column.id).Nodup := hok.localNodup
  have hforeignNodup : ((e.foreignColumns.map c.column).map Column.id).Nodup := hok.foreignNodup
  rw [map_id_resolved] at hlocalNodup hforeignNodup
  rw [List.length_map, List.length_map] at hlength
  refine ⟨rfl, hok.target_ne, ?_, hlength, owns_of_resolved hlocal hok.localOwner,
    owns_of_resolved hforeign hok.foreignOwner, hlocalNodup, hforeignNodup⟩
  intro hnil
  exact hok.foreign_ne_nil (List.map_eq_nil_iff.mpr hnil)

theorem IndexEntry.Owned.mono (h : Mutation c d) {name : String} {e : IndexEntry}
    (he : e.Owned c t name) : e.Owned d t name :=
  ⟨he.owner, he.name, h.owns he.columns⟩

theorem UniqueEntry.Owned.mono (h : Mutation c d) {e : UniqueEntry} (he : e.Owned c t) :
    e.Owned d t :=
  ⟨he.owner, h.owns he.columns, he.nodup⟩

theorem ForeignKeyEntry.Owned.mono (h : Mutation c d) {e : ForeignKeyEntry} (he : e.Owned c t) :
    e.Owned d t :=
  { he with
    localColumns := h.owns he.localColumns
    foreignColumns := h.owns he.foreignColumns }

/-- A unique constraint that is owned is verified as it is now. -/
theorem UniqueEntry.Owned.verified {u : UniqueId} (h : (c.uniques.get u).Owned c t) :
    (c.unique u).Verified where
  owner := by
    intro x hx
    obtain ⟨id, hid, rfl⟩ := List.mem_map.mp hx
    exact (h.columns id hid).2.trans h.owner.symm
  nodup := (map_id_resolved (c.uniques.get u).columns).symm ▸ h.nodup

/-- A foreign key that is owned is verified as it is now. -/
theorem ForeignKeyEntry.Owned.verified {k : ForeignKeyId} (h : (c.foreignKeys.get k).Owned c t) :
    (c.foreignKey k).Verified where
  target_ne := fun heq => h.target_ne (Eq.trans heq h.owner)
  foreign_ne_nil := fun hnil => h.foreign_ne_nil (List.map_eq_nil_iff.mp hnil)
  length_eq := by
    show ((c.foreignKeys.get k).foreignColumns.map c.column).length =
      ((c.foreignKeys.get k).localColumns.map c.column).length
    rw [List.length_map, List.length_map, h.length_eq]
  localOwner := by
    intro x hx
    obtain ⟨id, hid, rfl⟩ := List.mem_map.mp hx
    exact (h.localColumns id hid).2.trans h.owner.symm
  foreignOwner := by
    intro x hx
    obtain ⟨id, hid, rfl⟩ := List.mem_map.mp hx
    exact (h.foreignColumns id hid).2
  localNodup := (map_id_resolved (c.foreignKeys.get k).localColumns).symm ▸ h.localNodup
  foreignNodup := (map_id_resolved (c.foreignKeys.get k).foreignColumns).symm ▸ h.foreignNodup

namespace Catalog

/-- A catalog in which every part of a table is the table's own and keeps the rules of its kind. Nothing
is said of which primary key slots are filled. -/
structure Owned (c : Catalog) : Prop where
  slots : ∀ t, c.Owns t (c.tables.get t).slots.values ∧ (c.tables.get t).slots.values.Nodup
  index : ∀ t name i, (c.tables.get t).indexes.get? name = some i →
    c.indexes.Issued i ∧ (c.indexes.get i).Owned c t name
  unique : ∀ t, ∀ u ∈ (c.tables.get t).uniques, c.uniques.Issued u ∧ (c.uniques.get u).Owned c t
  foreignKey : ∀ t, ∀ k ∈ (c.tables.get t).foreignKeys,
    c.foreignKeys.Issued k ∧ (c.foreignKeys.get k).Owned c t

theorem owned_empty : empty.Owned where
  slots := fun _ => ⟨by rintro id ⟨⟩, List.nodup_nil⟩
  index := by rintro t name i ⟨⟩
  unique := by rintro t u ⟨⟩
  foreignKey := by rintro t k ⟨⟩

/-- An index stays a table's own. -/
theorem Mutation.index_stays (h : Mutation c d) {i : IndexId} {name : String}
    (hi : c.indexes.Issued i ∧ (c.indexes.get i).Owned c t name) :
    d.indexes.Issued i ∧ (d.indexes.get i).Owned d t name := by
  obtain ⟨hissued, howned⟩ := hi
  obtain ⟨hkept, hsame⟩ := h.get_index hissued
  rw [hsame]
  exact ⟨hkept, howned.mono h⟩

theorem Mutation.unique_stays (h : Mutation c d) {u : UniqueId}
    (hu : c.uniques.Issued u ∧ (c.uniques.get u).Owned c t) :
    d.uniques.Issued u ∧ (d.uniques.get u).Owned d t := by
  obtain ⟨hissued, howned⟩ := hu
  obtain ⟨hkept, hsame⟩ := h.get_unique hissued
  rw [hsame]
  exact ⟨hkept, howned.mono h⟩

theorem Mutation.foreignKey_stays (h : Mutation c d) {k : ForeignKeyId}
    (hk : c.foreignKeys.Issued k ∧ (c.foreignKeys.get k).Owned c t) :
    d.foreignKeys.Issued k ∧ (d.foreignKeys.get k).Owned d t := by
  obtain ⟨hissued, howned⟩ := hk
  obtain ⟨hkept, hsame⟩ := h.get_foreignKey hissued
  rw [hsame]
  exact ⟨hkept, howned.mono h⟩

theorem Mutation.owned (h : Mutation c d) (ho : c.Owned) : d.Owned where
  slots := by
    intro t
    obtain ⟨howns, hnodup⟩ := ho.slots t
    rcases h.slots t with heq | ⟨slot, id, heq, hfree, hid, howner, hnew⟩
    · rw [heq]
      exact ⟨h.owns howns, hnodup⟩
    · rw [heq, OrderedMap.values_insert_of_free hfree]
      refine ⟨?_, OrderedMap.nodup_append_singleton hnodup hnew⟩
      intro x hx
      rcases List.mem_append.mp hx with hx | hx
      · exact h.owns howns x hx
      · rw [List.mem_singleton.mp hx]
        exact ⟨h.issued.2 id hid, (h.owner_column hid).trans howner⟩
  index := by
    intro t name i hi
    rcases h.indexes t with heq | ⟨entry, rfl, rfl, heq, hids, -, hok⟩
    · exact h.index_stays (ho.index t name i (heq ▸ hi))
    · rw [heq, OrderedMap.get?_insert] at hi
      split at hi
      · next hname =>
        cases hi
        rw [get_addIndex_next, ← hname]
        exact ⟨Store.issued_next_add _ _, (IndexEntry.owned_of_verify hids hok).mono h⟩
      · exact h.index_stays (ho.index entry.owner name i hi)
  unique := by
    intro t u hu
    rcases h.uniques t with heq | ⟨entry, rfl, rfl, heq, hids, hok, -⟩
    · exact h.unique_stays (ho.unique t u (heq ▸ hu))
    · rw [heq, List.mem_append, List.mem_singleton] at hu
      rcases hu with hu | rfl
      · exact h.unique_stays (ho.unique entry.owner u hu)
      · rw [get_addUnique_next]
        exact ⟨Store.issued_next_add _ _, (UniqueEntry.owned_of_verify hids hok).mono h⟩
  foreignKey := by
    intro t k hk
    rcases h.foreignKeys t with heq | ⟨entry, rfl, rfl, heq, -, hlocal, hforeign, hok⟩
    · exact h.foreignKey_stays (ho.foreignKey t k (heq ▸ hk))
    · rw [heq, List.mem_append, List.mem_singleton] at hk
      rcases hk with hk | rfl
      · exact h.foreignKey_stays (ho.foreignKey entry.owner k hk)
      · rw [get_addForeignKey_next]
        exact ⟨Store.issued_next_add _ _,
          (ForeignKeyEntry.owned_of_verify hlocal hforeign hok).mono h⟩

theorem Mutations.owned (h : Mutations c d) (ho : c.Owned) : d.Owned := by
  induction h with
  | refl => exact ho
  | tail _ hstep ih => exact hstep.owned ih

end Catalog
end SchemaSync
