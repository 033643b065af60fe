import SchemaSync.Proofs.Diff.Database
import SchemaSync.Proofs.Schema.Sound
import SchemaSync.Proofs.Sql.NameStatement
import SchemaSync.Proofs.Sql.Token
import SchemaSync.Sql.Definition

/-!
# Created tables are read back

The statement that creates a table, without the references of its columns, shows the whole form of the table:
its columns in order with their types and defaults, its key, its constraints and its foreign keys over several
columns. It is read back row by row (`tableStatement`), where a name ends at its closing quote and a default at
the end of its literal, so no name and no text in a default can be taken for a part of the statement.

`formRows` are the rows that a form is written in; a form has other rows than every other form.
-/

namespace SchemaSync.Sql

open Reader
open Identifier (quote quoteList tick)

/-! ## Parts of definitions -/

/-- What may stand behind the name of a column in its definition. -/
inductive ColumnPart where
  | type (t : ColumnType)
  | notNull
  | autoIncrement
  | default (literal : String)

def ColumnPart.text : ColumnPart → String
  | type t => t.keyword
  | notNull => "NOT NULL"
  | autoIncrement => "AUTO_INCREMENT"
  | default literal => "DEFAULT " ++ literal

def columnParts (f : ColumnForm) : List ColumnPart :=
  (if f.type = .unknown then [] else [.type f.type]) ++ (if f.notNull then [.notNull] else []) ++
    (if f.autoIncrement then [.autoIncrement] else []) ++ (f.default.map .default).toList

/-- What a part says of a column. -/
def ColumnPart.apply (f : ColumnForm) : ColumnPart → ColumnForm
  | type t => { f with type := t }
  | notNull => { f with notNull := true }
  | autoIncrement => { f with autoIncrement := true }
  | default literal => { f with default := some literal }

/-- The column that the parts of a definition describe. -/
def formOfParts (parts : List ColumnPart) : ColumnForm :=
  parts.foldl ColumnPart.apply ⟨.unknown, false, none, false⟩

/-- The parts of its definition describe a column. -/
theorem formOfParts_columnParts (f : ColumnForm) : formOfParts (columnParts f) = f := by
  obtain ⟨type, notNull, default, autoIncrement⟩ := f
  cases type <;> cases notNull <;> cases default <;> cases autoIncrement <;> rfl

theorem mem_columnParts {f : ColumnForm} {p : ColumnPart} (h : p ∈ columnParts f) :
    (p = .type f.type ∧ f.type ≠ .unknown) ∨ p = .notNull ∨ p = .autoIncrement ∨
      ∃ literal, p = .default literal ∧ f.default = some literal := by
  unfold columnParts at h
  simp only [List.mem_append, Option.mem_toList, Option.map_eq_some_iff] at h
  rcases h with ((h | h) | h) | ⟨literal, hdefault, rfl⟩
  · split at h
    · cases h
    · next hknown => exact .inl ⟨List.mem_singleton.mp h, hknown⟩
  · split at h
    · exact .inr (.inl (List.mem_singleton.mp h))
    · cases h
  · split at h
    · exact .inr (.inr (.inl (List.mem_singleton.mp h)))
    · cases h
  · exact .inr (.inr (.inr ⟨literal, rfl, hdefault⟩))

/-! ## Rows -/

inductive Row where
  | column (name : String) (form : ColumnForm)
  | primaryKey (columns : List String)
  | foreignKey (key : KeyForm)
  | unique (columns : List String)

def Row.text : Row → String
  | column name form => " ".intercalate (quote name :: (columnParts form).map ColumnPart.text)
  | primaryKey columns => "PRIMARY KEY (" ++ quoteList columns ++ ")"
  | foreignKey key => "FOREIGN KEY (" ++ quoteList key.localColumns ++ ") REFERENCES " ++ quote key.target ++
      "(" ++ quoteList key.foreignColumns ++ ")" ++
      (" ON DELETE " ++ key.onDelete.keyword ++ " ON UPDATE " ++ key.onUpdate.keyword)
  | unique columns => "UNIQUE (" ++ quoteList columns ++ ")"

def formRows (f : TableForm) : List Row :=
  (f.columns.entries.map fun e => .column e.1 e.2) ++
    ((if f.primaryKey.isEmpty then [] else [.primaryKey f.primaryKey]) ++ f.foreignKeys.map .foreignKey ++
      f.uniques.map .unique)

namespace Row

/-! The rows of one kind among others. -/

def column? : Row → Option (String × ColumnForm)
  | column name form => some (name, form)
  | _ => none

def primaryKey? : Row → Option (List String)
  | primaryKey columns => some columns
  | _ => none

def foreignKey? : Row → Option KeyForm
  | foreignKey key => some key
  | _ => none

def unique? : Row → Option (List String)
  | unique columns => some columns
  | _ => none

end Row

/-- Each kind of rows gives back a part of the form. No key is written as no row. -/
theorem filterMap_formRows (f : TableForm) :
    (formRows f).filterMap Row.column? = f.columns.entries ∧
      ((formRows f).filterMap Row.primaryKey?).flatten = f.primaryKey ∧
      (formRows f).filterMap Row.foreignKey? = f.foreignKeys ∧
      (formRows f).filterMap Row.unique? = f.uniques := by
  unfold formRows
  by_cases hkey : f.primaryKey = [] <;>
  · refine ⟨?_, ?_, ?_, ?_⟩ <;>
    simp [List.filterMap_cons, List.filterMap_map, Function.comp_def, Row.column?, Row.primaryKey?,
      Row.foreignKey?, Row.unique?, hkey]

/-- A form is told from its rows. -/
theorem formRows_inj {f g : TableForm} (h : formRows f = formRows g) : f = g := by
  obtain ⟨hcolumns, hprimary, hkeys, huniques⟩ := filterMap_formRows f
  rw [h] at hcolumns hprimary hkeys huniques
  obtain ⟨hcolumns', hprimary', hkeys', huniques'⟩ := filterMap_formRows g
  have hmap : f.columns = g.columns := OrderedMap.ext (hcolumns.symm.trans hcolumns')
  have hprimary : f.primaryKey = g.primaryKey := hprimary.symm.trans hprimary'
  have hkeys : f.foreignKeys = g.foreignKeys := hkeys.symm.trans hkeys'
  have huniques : f.uniques = g.uniques := huniques.symm.trans huniques'
  cases f
  cases g
  simp_all

/-! ## Reading rows -/

/-- The words of a definition, with the parts that they stand for. -/
def partWords : List (String × ColumnPart) :=
  [("INTEGER", .type .integer), ("TEXT", .type .text), ("REAL", .type .real), ("BLOB", .type .blob),
    ("NULL", .type .null), ("NOT NULL", .notNull), ("AUTO_INCREMENT", .autoIncrement)]

def part : Reader ColumnPart :=
  (do
    word "DEFAULT "
    (fun cs => .default (String.ofList cs)) <$> consumed literalToken) <|>
  choice partWords

def columnRow : Reader Row := do
  let n ← name
  (fun parts => .column n (formOfParts parts)) <$> many (do
    word " "
    part)

/-- Reads what becomes of a row that refers to another one. -/
def action : Reader Action := choice (Action.all.map fun a => (a.keyword, a))

/-- What stands behind the first word of a constraint. -/
def constraints : List (String × Reader Row) := [
  ("PRIMARY KEY (", do
    let columns ← names
    (fun _ => .primaryKey columns) <$> word ")"),
  ("FOREIGN KEY (", do
    let localColumns ← names
    word ") REFERENCES "
    let target ← name
    word "("
    let foreignColumns ← names
    word ")"
    word " ON DELETE "
    let onDelete ← action
    word " ON UPDATE "
    (fun onUpdate => .foreignKey ⟨localColumns, foreignColumns, target, onUpdate, onDelete⟩) <$> action),
  ("UNIQUE (", do
    let columns ← names
    (fun _ => .unique columns) <$> word ")")]

def row : Reader Row := columnRow <|> branch constraints

def tableStatement : Reader (String × List Row) := do
  word "CREATE TABLE "
  let n ← name
  word " (\n"
  let rows ← sepBy ",\n" (do
    word "    "
    row)
  (fun _ => (n, rows)) <$> word "\n)"

/-- What stands behind a part of a definition: the next part, the next row or the end. -/
def afterPart (c : Char) : Prop := c = ' ' ∨ c = ',' ∨ c = '\n'

/-- What stands behind a row: the next row or the end. -/
def afterRow (c : Char) : Prop := c = ',' ∨ c = '\n'

instance : DecidablePred afterPart := fun _ => inferInstanceAs (Decidable (_ ∨ _))

instance : DecidablePred afterRow := fun _ => inferInstanceAs (Decidable (_ ∨ _))

/-- The default of a column, if there is one, is written as a token. -/
def TokenDefault (f : ColumnForm) : Prop := ∀ s, f.default = some s → ∃ t : Token, t.Spelled s.toList

theorem apart_partWords : (partWords.map Prod.fst).Pairwise Apart := by decide

theorem reads_part {f : ColumnForm} (hf : TokenDefault f) {p : ColumnPart} (hp : p ∈ columnParts f) :
    part.Reads p.text.toList p (Ahead afterPart) := by
  have hword : ∀ q : ColumnPart, (q.text, q) ∈ partWords → part.Reads q.text.toList q (Ahead afterPart) := by
    intro q hq
    have hfirst : ∀ q ∈ partWords, Apart "DEFAULT " q.1 := by decide
    exact Reads.orElse_right (hfirst _ hq).refuses.bind (reads_choice apart_partWords hq)
  rcases mem_columnParts hp with ⟨rfl, hknown⟩ | rfl | rfl | ⟨literal, rfl, hdefault⟩
  · refine hword _ ?_
    cases htype : f.type with
    | unknown => exact absurd htype hknown
    | _ => simp [partWords, ColumnPart.text, ColumnType.keyword]
  · exact hword .notNull (by simp [partWords, ColumnPart.text])
  · exact hword .autoIncrement (by simp [partWords, ColumnPart.text])
  · obtain ⟨t, ht⟩ := hf literal hdefault
    have hliteral : ((fun cs => .default (String.ofList cs)) <$> consumed literalToken).Reads
        literal.toList (ColumnPart.default literal) (Ahead afterPart) := by
      have htoken : literalToken.Reads literal.toList t (Ahead afterPart) :=
        ht.reads.mono fun _ h => h.mono (by rintro c (rfl | rfl | rfl) <;> rfl)
      have hread := htoken.consumed.map (g := fun cs => ColumnPart.default (String.ofList cs))
      rwa [String.ofList_toList] at hread
    rw [ColumnPart.text, String.toList_append]
    exact (reads_word_bind hliteral).orElse

/-- The definition of a column is read up to the end of its row. -/
theorem reads_columnRow {n : String} {f : ColumnForm} (hf : TokenDefault f) :
    columnRow.Reads (Row.column n f).text.toList (.column n f) (Ahead afterRow) := by
  -- The name and the parts are joined by blanks, so each part is read with the blank in front of it.
  unfold Row.text
  rw [toList_intercalate_cons, List.flatMap_map]
  have hparts : Reads (many (do word " "; part)) ((columnParts f).flatMap fun p => " ".toList ++ p.text.toList)
      (columnParts f) (Ahead afterRow) := by
    have hpart : ∀ p ∈ columnParts f,
        (do word " "; part).Reads (" ".toList ++ p.text.toList) p (Ahead afterPart) :=
      fun p hp => reads_word_bind (reads_part hf hp)
    -- Neither a comma nor the end of a line begins another part.
    refine Reads.many hpart (by simp) (fun p _ rest => ?_) (fun _ h => h.mono fun _ hc => .inr hc)
      (refuses_word rfl (by decide)).bind
    rw [List.append_assoc]
    exact ahead_word rfl (by decide) _
  have hform := hparts.map (g := fun parts => Row.column n (formOfParts parts))
  rw [formOfParts_columnParts] at hform
  refine (reads_name n).bind hform fun rest hrest => ?_
  cases columnParts f with
  | nil => exact hrest.mono fun c hc => by rcases hc with rfl | rfl <;> decide
  | cons p parts =>
      rw [List.flatMap_cons, List.append_assoc, List.append_assoc]
      exact ahead_word rfl (by decide) _

theorem reads_action (a : Action) {after : List Char → Prop} : action.Reads a.keyword.toList a after :=
  reads_choice (by decide) (List.mem_map_of_mem (by cases a <;> decide))

theorem apart_constraints : (constraints.map Prod.fst).Pairwise Apart := by decide

/-- What does not begin with a quote is not the definition of a column. -/
theorem reads_constraint {w : String} {c : Char} {r : Reader Row} {t : List Char} {a : Row}
    {after : List Char → Prop} (hw : w.toList.head? = some c) (hc : c ≠ tick) (hr : (w, r) ∈ constraints)
    (hread : r.Reads t a after) : row.Reads (w.toList ++ t) a after := by
  refine Reads.orElse_right ?_ (reads_branch apart_constraints hr hread)
  rintro _ ⟨rest, -, rfl⟩
  rw [List.append_assoc]
  exact refuses_name.bind _ (ahead_word hw hc _)

theorem reads_row {a : Row} (h : ∀ n f, a = .column n f → TokenDefault f) :
    row.Reads a.text.toList a (Ahead afterRow) := by
  cases a with
  | column n f => exact (reads_columnRow (h n f rfl)).orElse
  | primaryKey columns =>
      unfold Row.text
      simp only [String.toList_append, List.append_assoc]
      refine reads_constraint rfl (by decide) (.head _) ?_
      exact (reads_names columns).bind_last rfl (by decide) (reads_word ")").map
  | unique columns =>
      unfold Row.text
      simp only [String.toList_append, List.append_assoc]
      refine reads_constraint rfl (by decide) (.tail _ (.tail _ (.head _))) ?_
      exact (reads_names columns).bind_last rfl (by decide) (reads_word ")").map
  | foreignKey key =>
      unfold Row.text
      simp only [String.toList_append, List.append_assoc]
      refine reads_constraint rfl (by decide) (.tail _ (.head _)) ?_
      refine (reads_names key.localColumns).bind_word rfl (by decide) (reads_word_bind ?_)
      refine (reads_name key.target).bind_word rfl (by decide) (reads_word_bind ?_)
      refine (reads_names key.foreignColumns).bind_word rfl (by decide) (reads_word_bind ?_)
      have hdelete : action.Reads key.onDelete.keyword.toList key.onDelete fun _ => True := reads_action _
      refine reads_word_bind (hdelete.bind (reads_word_bind ?_) fun _ _ => trivial)
      exact (reads_action key.onUpdate).map

/-- The statement that creates a table is read back as the name and the rows of the table. -/
theorem reads_tableStatement {n : String} {rows : List Row} {after : List Char → Prop}
    (h : ∀ n f, .column n f ∈ rows → TokenDefault f) :
    tableStatement.Reads (createTableOf n (rows.map Row.text)).toList (n, rows) after := by
  have hrows : (sepBy ",\n" (do word "    "; row)).Reads
      (",\n".intercalate ((rows.map Row.text).map ("    " ++ ·))).toList rows (Ahead (· = '\n')) := by
    rw [List.map_map]
    have hrow : ∀ a ∈ rows,
        (do word "    "; row).Reads ("    " ++ a.text).toList a (Ahead afterRow) := by
      intro a ha
      rw [String.toList_append]
      exact reads_word_bind (reads_row fun n f ha' => h n f (ha' ▸ ha))
    refine Reads.sepBy hrow (by decide) (fun rest => ahead_word rfl (by decide) rest)
      (fun _ hrest => hrest.mono fun _ hc => .inr hc) (refuses_word rfl (by decide)).bind ?_
    rintro _ hrest ⟨rest, rfl⟩
    exact absurd (hrest ',' rfl) (by decide)
  unfold createTableOf
  simp only [String.toList_append, List.append_assoc]
  refine reads_word_bind ((reads_name n).bind_word rfl (by decide) (reads_word_bind ?_))
  exact hrows.bind_last rfl rfl (reads_word "\n)").map

/-! ## Created tables -/

/-- The definition of a column is the row of its name and form. -/
theorem text_column (x : Column) : (Row.column x.name x.form).text = definition x := by
  have hparts : (columnParts x.form).map ColumnPart.text =
      (if x.type = .unknown then [] else [x.type.keyword]) ++ (if x.notNull then ["NOT NULL"] else []) ++
        (if x.autoIncrement then ["AUTO_INCREMENT"] else []) ++ (x.default.map ("DEFAULT " ++ ·)).toList := by
    unfold columnParts Column.form
    simp only [List.map_append, apply_ite (List.map ColumnPart.text)]
    cases x.default <;> rfl
  show " ".intercalate (quote x.name :: (columnParts x.form).map ColumnPart.text) = definition x
  rw [hparts]
  unfold definition defineColumn
  cases x.default <;> rfl

/-- The rows of a table whose columns stand under their own names are those of its form. -/
theorem text_formRows {t : Table} (hnames : ∀ name x, t.columns.get? name = some x → x.name = name) :
    (formRows t.form).map Row.text = t.columns.values.map definition ++ constraintRows t := by
  have hcolumns : (t.form.columns.entries.map fun e => Row.column e.1 e.2).map Row.text =
      t.columns.values.map definition := by
    show ((t.columns.entries.map fun e => (e.1, e.2.form)).map _).map _ = (t.columns.entries.map _).map _
    simp only [List.map_map]
    refine List.map_congr_left fun e he => ?_
    have hname := hnames e.1 e.2 (OrderedMap.mem_entries_iff_get?.mp he)
    show (Row.column e.1 e.2.form).text = definition e.2
    rw [← hname]
    exact text_column e.2
  have hkey : (if t.form.primaryKey.isEmpty then [] else [Row.primaryKey t.form.primaryKey]).map Row.text =
      if t.primaryKey.isEmpty then [] else ["PRIMARY KEY (" ++ columnList t.primaryKey ++ ")"] := by
    have hempty : t.form.primaryKey.isEmpty = t.primaryKey.isEmpty := List.isEmpty_map
    rw [hempty]
    cases t.primaryKey.isEmpty <;> rfl
  have hkeys : (t.form.foreignKeys.map Row.foreignKey).map Row.text =
      (t.foreignKeys.filter fun f => !f.isSingleColumn).map foreignKeyRow := by
    show (((t.foreignKeys.filter _).map ForeignKey.form).map _).map _ = _
    simp only [List.map_map]
    rfl
  have huniques : (t.form.uniques.map Row.unique).map Row.text =
      t.uniques.map fun u => "UNIQUE (" ++ columnList u.columns ++ ")" := by
    show ((t.uniques.map _).map _).map _ = _
    simp only [List.map_map]
    rfl
  unfold formRows constraintRows
  rw [List.map_append, List.map_append, List.map_append, hcolumns, hkey, hkeys, huniques]

/-- Every default of a table is what is written for a value other than a piece of SQL. -/
def LiteralDefaults (t : Table) : Prop :=
  ∀ x ∈ t.columns.values, ∀ s, x.default = some s → ∃ v : Value, v.isExpression = false ∧ literal v = .ok s

theorem literalDefaults_of_map {t : Table} {defaults : List (Option String)}
    (h : t.columns.values.map Column.default = defaults)
    (hliteral : ∀ s, some s ∈ defaults → ∃ v : Value, v.isExpression = false ∧ literal v = .ok s) :
    LiteralDefaults t :=
  fun _ hx s hs => hliteral s (h ▸ hs ▸ List.mem_map_of_mem hx)

/-- A created table is read back as its name and the rows of its form. -/
theorem whole_tableStatement {t : Table} (hnames : ∀ name x, t.columns.get? name = some x → x.name = name)
    (hdefaults : LiteralDefaults t) :
    tableStatement.whole (createTableAs t.name t) = some (t.name, formRows t.form) := by
  unfold createTableAs
  rw [← text_formRows hnames]
  have hdefault : ∀ n f, .column n f ∈ formRows t.form → TokenDefault f := by
    intro n f ha s hs
    have hentry : (n, f) ∈ t.form.columns.entries := by
      rw [← (filterMap_formRows t.form).1]
      exact List.mem_filterMap.mpr ⟨_, ha, rfl⟩
    obtain ⟨e, he, hform⟩ := List.mem_map.mp hentry
    obtain ⟨rfl, rfl⟩ := Prod.mk.inj hform
    obtain ⟨v, hv, hliteral⟩ := hdefaults e.2 (List.mem_map_of_mem he) s hs
    obtain ⟨token, -, hspelled⟩ := denotes_of_literal hv hliteral
    exact ⟨token, hspelled⟩
  have hread : tableStatement.Reads _ (t.name, formRows t.form) fun _ => True :=
    reads_tableStatement hdefault
  exact hread.whole trivial

/-- **Created tables are told from their texts**: of two tables that edits reach, and whose defaults are written
for values other than pieces of SQL, the statements that create them are the same exactly if the tables have the
same name and the same form: the same columns in the same order with the same types and defaults, the same key,
the same foreign keys over several columns and the same unique constraints. The statement alone shows the name
and the rows of the form, whatever characters the names and the defaults are made of. -/
theorem createTable_told_by_text {t u : Table} (ht : t.Reachable) (hu : u.Reachable)
    (hdefaults : LiteralDefaults t) (hdefaults' : LiteralDefaults u) :
    (createTable t false none = createTable u false none ↔ t.name = u.name ∧ t.form = u.form) ∧
      ∃ text, createTable t false none = .ok text ∧
        tableStatement.whole text = some (t.name, formRows t.form) := by
  have hread := whole_tableStatement (fun _ _ => ht.name_column) hdefaults
  have hread' := whole_tableStatement (fun _ _ => hu.name_column) hdefaults'
  refine ⟨⟨fun h => ?_, fun ⟨hname, hform⟩ => ?_⟩, _, rfl, hread⟩
  · have htext : createTableAs t.name t = createTableAs u.name u := Except.ok.inj h
    rw [htext, hread'] at hread
    obtain ⟨hname, hrows⟩ := Prod.mk.inj (Option.some.inj hread)
    exact ⟨hname.symm, formRows_inj hrows.symm⟩
  · have htext : createTableAs t.name t = createTableAs u.name u := by
      unfold createTableAs
      rw [← text_formRows fun _ _ => ht.name_column, ← text_formRows fun _ _ => hu.name_column, hname, hform]
    exact congrArg Except.ok htext

/-- A table of one column, whose default looks like the end of a row and another row. -/
def disguisedColumn : List Edit.Command :=
  [.createSnapshot, .createTable ⟨0⟩ "notes`",
    .createColumn ⟨0⟩ ⟨"body", "TEXT", false, some "''',\n    `tag` TEXT'", false, false⟩]

def twoColumns : List Edit.Command :=
  [.createSnapshot, .createTable ⟨0⟩ "notes`",
    .createColumn ⟨0⟩ ⟨"body", "TEXT", false, some "''''", false, false⟩,
    .createColumn ⟨0⟩ ⟨"tag", "TEXT", false, none, false, false⟩]

theorem createTable_told_by_text_disguised :
    LiteralDefaults ((Edit.Command.run .empty disguisedColumn).table ⟨0⟩) ∧
      LiteralDefaults ((Edit.Command.run .empty twoColumns).table ⟨0⟩) ∧
      createTable ((Edit.Command.run .empty disguisedColumn).table ⟨0⟩) false none ≠
        createTable ((Edit.Command.run .empty twoColumns).table ⟨0⟩) false none ∧
      ∃ text, createTable ((Edit.Command.run .empty disguisedColumn).table ⟨0⟩) false none = .ok text ∧
        tableStatement.whole text = some (((Edit.Command.run .empty disguisedColumn).table ⟨0⟩).name,
          formRows ((Edit.Command.run .empty disguisedColumn).table ⟨0⟩).form) := by
  have hissued : Edit.Command.AllIssued .empty disguisedColumn := by decide
  have hissued' : Edit.Command.AllIssued .empty twoColumns := by decide
  have hone : LiteralDefaults ((Edit.Command.run .empty disguisedColumn).table ⟨0⟩) := by
    refine literalDefaults_of_map (show _ = [some "''',\n    `tag` TEXT'"] by decide) fun s hs => ?_
    obtain rfl := Option.some.inj (List.mem_singleton.mp hs)
    exact ⟨.text "',\n    `tag` TEXT", rfl, rfl⟩
  have htwo : LiteralDefaults ((Edit.Command.run .empty twoColumns).table ⟨0⟩) := by
    refine literalDefaults_of_map (show _ = [some "''''", none] by decide) fun s hs => ?_
    obtain rfl : s = "''''" := by simpa using hs
    exact ⟨.text "'", rfl, rfl⟩
  have htold := createTable_told_by_text ⟨_, Catalog.Reachable.empty.run hissued, _, rfl⟩
    ⟨_, Catalog.Reachable.empty.run hissued', _, rfl⟩ hone htwo
  refine ⟨hone, htwo, fun h => ?_, htold.2⟩
  exact absurd (htold.1.mp h).2 (by decide)

end SchemaSync.Sql
