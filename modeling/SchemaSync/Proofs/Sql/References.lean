import SchemaSync.Proofs.OrderedMap
import SchemaSync.Sql.Definition

/-!
# References in definitions of columns

A definition of a column may end in clauses that say which row of which table it refers to. A clause
shows where it ends, so the clauses of a definition can be told from its text (`definitionWith_inj`).

A reference is attached by a statement that replaces the whole definition of its column. Such a
statement can be read back (`Redefinition.read?_text`), so the definitions that a list of statements
leaves behind are known: under each column stands what the last statement about it wrote
(`Definitions.get?_run_text`).
-/

namespace SchemaSync

open Sql.Identifier (quote quoteChars)

/-! ## Clauses -/

namespace Sql

/-- A reference as it stands in the definition of a column. -/
structure Clause where
  target : String
  column : String
  onDelete : Action
  onUpdate : Action
  deriving DecidableEq

def Clause.text (c : Clause) : String :=
  "REFERENCES " ++ quote c.target ++ "(" ++ quote c.column ++ ")" ++
    (" ON DELETE " ++ c.onDelete.keyword ++ " ON UPDATE " ++ c.onUpdate.keyword)

def definitionWith (x : Column) (clauses : List Clause) : String :=
  definition x ++ String.join (clauses.map fun c => " " ++ c.text)

def Carries (text : String) (x : Column) (c : Clause) : Prop :=
  ∃ clauses, c ∈ clauses ∧ text = definitionWith x clauses

/-! ### Clauses are read back -/

variable {a b : Clause} {r s : List Char}

theorem quote_append_inj {m n : String} (hr : r.head? ≠ some Identifier.tick)
    (hs : s.head? ≠ some Identifier.tick) (h : (quote m).toList ++ r = (quote n).toList ++ s) :
    m = n ∧ r = s := by
  have hread := congrArg Identifier.read? h
  simp only [quote, String.toList_ofList] at hread
  rw [Identifier.read?_quoteChars _ _ hr, Identifier.read?_quoteChars _ _ hs] at hread
  obtain ⟨hname, hrest⟩ := Prod.mk.inj (Option.some.inj hread)
  exact ⟨String.toList_inj.mp hname, hrest⟩

/-- No keyword of an action is the start of another one. -/
theorem keyword_prefix_inj {k l : Action} : k.keyword.toList <+: l.keyword.toList → k = l := by
  cases k <;> cases l <;> decide

theorem keyword_append_inj {k l : Action} (h : k.keyword.toList ++ r = l.keyword.toList ++ s) :
    k = l ∧ r = s := by
  have hk : k.keyword.toList <+: l.keyword.toList ++ s := h ▸ List.prefix_append _ _
  have hkl : k = l := by
    rcases List.prefix_or_prefix_of_prefix hk (List.prefix_append _ _) with hprefix | hprefix
    · exact keyword_prefix_inj hprefix
    · exact (keyword_prefix_inj hprefix).symm
  subst hkl
  exact ⟨rfl, List.append_cancel_left h⟩

theorem toList_text (c : Clause) : c.text.toList =
    "REFERENCES ".toList ++ ((quote c.target).toList ++ '(' :: ((quote c.column).toList ++
      ')' :: (" ON DELETE ".toList ++ (c.onDelete.keyword.toList ++
        (" ON UPDATE ".toList ++ c.onUpdate.keyword.toList))))) := by
  have htext : c.text = "REFERENCES " ++ quote c.target ++ "(" ++ quote c.column ++ ")" ++
    (" ON DELETE " ++ c.onDelete.keyword ++ " ON UPDATE " ++ c.onUpdate.keyword) := rfl
  have hopen : "(".toList = ['('] := rfl
  have hclose : ")".toList = [')'] := rfl
  simp only [htext, String.toList_append, List.append_assoc, hopen, hclose, List.cons_append,
    List.nil_append]

/-- A clause is read back from the front of a text, whatever follows. -/
theorem Clause.text_append_inj (h : a.text.toList ++ r = b.text.toList ++ s) : a = b ∧ r = s := by
  simp only [toList_text, List.append_assoc, List.cons_append] at h
  obtain ⟨htarget, h⟩ := quote_append_inj (by simp [Identifier.tick]) (by simp [Identifier.tick])
    (List.append_cancel_left h)
  obtain ⟨hcolumn, h⟩ := quote_append_inj (by simp [Identifier.tick]) (by simp [Identifier.tick])
    (List.cons.inj h).2
  obtain ⟨hdelete, h⟩ := keyword_append_inj (List.append_cancel_left (List.cons.inj h).2)
  obtain ⟨hupdate, hrest⟩ := keyword_append_inj (List.append_cancel_left h)
  refine ⟨?_, hrest⟩
  cases a
  cases b
  simp_all

theorem toList_definitionWith (x : Column) (clauses : List Clause) :
    (definitionWith x clauses).toList =
      (definition x).toList ++ clauses.flatMap fun c => ' ' :: c.text.toList := by
  simp [definitionWith, String.toList_join, List.flatMap_map]

theorem clauses_inj : ∀ {cs ds : List Clause},
    (cs.flatMap fun c => ' ' :: c.text.toList) = (ds.flatMap fun c => ' ' :: c.text.toList) → cs = ds
  | [], [], _ => rfl
  | [], d :: ds, h => by simp at h
  | c :: cs, [], h => by simp at h
  | c :: cs, d :: ds, h => by
    simp only [List.flatMap_cons, List.cons_append] at h
    obtain ⟨hfirst, hrest⟩ := Clause.text_append_inj (List.cons.inj h).2
    rw [hfirst, clauses_inj hrest]

/-- The clauses of a definition are told from its text. -/
theorem definitionWith_inj {x : Column} {cs ds : List Clause} :
    definitionWith x cs = definitionWith x ds ↔ cs = ds := by
  constructor
  · intro h
    have hchars := congrArg String.toList h
    rw [toList_definitionWith, toList_definitionWith] at hchars
    exact clauses_inj (List.append_cancel_left hchars)
  · intro h
    rw [h]

theorem carries_definitionWith_iff {x : Column} {cs : List Clause} :
    Carries (definitionWith x cs) x a ↔ a ∈ cs := by
  constructor
  · intro h
    rcases h with ⟨ds, hmem, htext⟩
    rw [definitionWith_inj.mp htext]
    exact hmem
  · intro hmem
    exact ⟨cs, hmem, rfl⟩

end Sql

/-! ## Clauses of foreign keys -/

/-- The clause of a foreign key, by its first foreign column. -/
def ForeignKey.clause? (f : ForeignKey) : Option Sql.Clause :=
  f.foreignColumns.head?.map fun c => ⟨f.targetName, c.name, f.onDelete, f.onUpdate⟩

theorem ForeignKey.isSingleColumn_of_eq {f : ForeignKey} {x : Column} (h : f.singleColumn? = some x) :
    f.isSingleColumn = true := by
  rw [isSingleColumn, h, Option.isSome_some]

namespace Sql

theorem references_of_clause? {f : ForeignKey} {c : Clause} (h : f.clause? = some c) :
    references f = .ok c.text := by
  unfold ForeignKey.clause? at h
  unfold references
  cases hcolumns : f.foreignColumns with
  | nil =>
    rw [hcolumns] at h
    cases h
  | cons x xs =>
    rw [hcolumns] at h
    rw [← Option.some.inj h]
    rfl

/-- The definition of a column in a table that is created with references. -/
def definitionIn (t : Table) (x : Column) : String :=
  definitionWith x ((referenceOf? t x).bind ForeignKey.clause?).toList

theorem definitionWith_nil (x : Column) : definitionWith x [] = definition x := String.append_empty

theorem definitionWith_singleton (x : Column) (c : Clause) :
    definitionWith x [c] = definition x ++ " " ++ c.text := by
  rw [← String.toList_inj, toList_definitionWith]
  simp

/-- A reference that a column is written with is a key of the table over that column. -/
theorem mem_of_referenceOf? {t : Table} {x : Column} {f : ForeignKey} (h : referenceOf? t x = some f) :
    f ∈ t.foreignKeys ∧ ∃ y, f.singleColumn? = some y ∧ y.name = x.name := by
  unfold referenceOf? at h
  refine ⟨List.mem_reverse.mp (List.mem_of_find?_eq_some h), ?_⟩
  simpa using List.find?_some h

theorem referringRow_eq {t : Table} {x : Column}
    (h : ∀ f, referenceOf? t x = some f → ∃ c, f.clause? = some c) :
    referringRow t x = .ok (definitionIn t x) := by
  unfold referringRow definitionIn
  cases hreference : referenceOf? t x with
  | none => exact congrArg Except.ok (definitionWith_nil x).symm
  | some f =>
    obtain ⟨c, hc⟩ := h f hreference
    have htext := references_of_clause? hc
    simp only [Option.bind_some, hc, htext, Option.toList_some, definitionWith_singleton]
    rfl

theorem mapM_eq_ok_map {α β ε : Type} {f : α → Except ε β} {g : α → β} {l : List α}
    (h : ∀ a ∈ l, f a = .ok (g a)) : l.mapM f = .ok (l.map g) := by
  induction l with
  | nil => rfl
  | cons a l ih =>
    obtain ⟨hfirst, hrest⟩ := List.forall_mem_cons.mp h
    rw [List.mapM_cons, hfirst, ih hrest]
    rfl

/-- A table is created with the last reference of each of its columns. -/
theorem createTable_eq {t : Table}
    (h : ∀ f ∈ t.foreignKeys, f.isSingleColumn = true → ∃ c, f.clause? = some c) :
    createTable t true none =
      .ok (createTableOf t.name (t.columns.values.map (definitionIn t) ++ constraintRows t)) := by
  have hrows : t.columns.values.mapM (referringRow t) =
      .ok (t.columns.values.map (definitionIn t)) := by
    refine mapM_eq_ok_map fun x _ => referringRow_eq fun f hf => ?_
    obtain ⟨hmem, y, hsingle, -⟩ := mem_of_referenceOf? hf
    exact h f hmem (ForeignKey.isSingleColumn_of_eq hsingle)
  show createReferringTableAs t.name t = _
  unfold createReferringTableAs
  rw [hrows]
  rfl

/-! ## Statements that replace a definition -/

/-- The definition of a column, to be replaced. -/
structure Redefinition where
  table : String
  column : String
  definition : String

namespace Redefinition

def text (r : Redefinition) : String := alterColumn r.table r.column r.definition

/-- Read a statement that replaces the definition of a column. -/
def read? (statement : String) : Option Redefinition := do
  let rest ← statement.toList.dropPrefix? "ALTER TABLE ".toList
  let (table, rest) ← Identifier.read? rest
  let rest ← rest.dropPrefix? " ALTER COLUMN ".toList
  let (column, rest) ← Identifier.read? rest
  let rest ← rest.dropPrefix? " TO ".toList
  pure ⟨String.ofList table, String.ofList column, String.ofList rest⟩

theorem dropPrefix?_append (xs rest : List Char) : (xs ++ rest).dropPrefix? xs = some rest :=
  List.dropPrefix?_eq_some_iff.mpr ⟨xs, rfl, beq_self_eq_true xs⟩

theorem read?_text (r : Redefinition) : read? r.text = some r := by
  have htext : r.text.toList = "ALTER TABLE ".toList ++ (quoteChars r.table.toList ++
      (" ALTER COLUMN ".toList ++ (quoteChars r.column.toList ++
        (" TO ".toList ++ r.definition.toList)))) := by
    simp only [text, alterColumn, alterTable, quote, String.toList_append, String.toList_ofList,
      List.append_assoc]
  unfold read?
  rw [htext, dropPrefix?_append, Option.bind_eq_bind, Option.bind_some,
    Identifier.read?_quoteChars _ _ (by simp [Identifier.tick])]
  simp only [Option.bind_eq_bind, Option.bind_some, dropPrefix?_append]
  rw [Identifier.read?_quoteChars _ _ (by simp [Identifier.tick])]
  simp only [Option.bind_some, dropPrefix?_append, String.ofList_toList]
  rfl

end Redefinition

/-- The definitions of columns, by table and column. -/
abbrev Definitions := OrderedMap (String × String) String

namespace Definitions

/-- What a statement does to the definitions: it may replace one. -/
def apply (defs : Definitions) (statement : String) : Definitions :=
  match Redefinition.read? statement with
  | some r => defs.insert (r.table, r.column) r.definition
  | none => defs

def run (defs : Definitions) (statements : List String) : Definitions := statements.foldl apply defs

theorem run_text (defs : Definitions) (rs : List Redefinition) :
    defs.run (rs.map Redefinition.text) =
      rs.foldl (fun d r => d.insert (r.table, r.column) r.definition) defs := by
  unfold run
  rw [List.foldl_map]
  simp only [apply, Redefinition.read?_text]

/-- Under a column stands what the last statement about it wrote. -/
theorem get?_run_text (defs : Definitions) (rs : List Redefinition) (k : String × String) :
    (defs.run (rs.map Redefinition.text)).get? k =
      ((rs.filter fun r => (r.table, r.column) = k).getLast?.map Redefinition.definition).or
        (defs.get? k) := by
  rw [run_text]
  induction rs using List.reverseRecOn with
  | nil => rfl
  | append_singleton rs r ih =>
    rw [List.foldl_append, List.foldl_cons, List.foldl_nil, OrderedMap.get?_insert, ih,
      List.filter_append]
    by_cases hk : (r.table, r.column) = k
    · simp [hk]
    · simp [hk]

end Definitions
end Sql
end SchemaSync
