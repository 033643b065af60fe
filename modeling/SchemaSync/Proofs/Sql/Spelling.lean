import SchemaSync.Proofs.Sql.Script

/-!
# How the statements of a rebuild are spelled

`Statement.text` is what SQL calls for: every word is spelled out, and a name stands between grave accents, with its
own accents doubled. None of the functions that write statements is used for it. They are shown to write the same.
-/

namespace SchemaSync.Sql

open Identifier (quote tick double)
open Reader (toList_intercalate_cons)

/-! ## Words and names -/

def Segment.spelled : Segment → List Char
  | word w => w.toList
  | name n =>
    '\x60' :: (n.toList.flatMap fun c => if c = '\x60' then ['\x60', '\x60'] else [c]) ++ ['\x60']

def spelling (segments : List Segment) : String := String.ofList (segments.flatMap Segment.spelled)

theorem double_eq_flatMap (cs : List Char) :
    double cs = cs.flatMap fun c => if c = '\x60' then ['\x60', '\x60'] else [c] := by
  induction cs with
  | nil => rfl
  | cons c cs ih =>
      rw [double, ih, List.flatMap_cons, tick]
      split
      · rfl
      · rfl

theorem Segment.spelled_eq (s : Segment) : s.spelled = s.text.toList := by
  cases s with
  | word w => rfl
  | name n =>
      rw [text, quote, String.toList_ofList, Identifier.quoteChars, double_eq_flatMap]
      rfl

theorem spelling_eq (segments : List Segment) : spelling segments = String.ofList (spell segments) := by
  have hspelled : Segment.spelled = fun s => s.text.toList := funext Segment.spelled_eq
  rw [spelling, hspelled, spell]

/-- A text is spelled by parts that make up its characters. -/
theorem spelling_of_spell {segments : List Segment} {s : String} (h : spell segments = s.toList) :
    spelling segments = s := by
  rw [spelling_eq, h, String.ofList_toList]

/-! ## Rows of a table -/

def ColumnPart.word : ColumnPart → String
  | type .integer => "INTEGER"
  | type .text => "TEXT"
  | type .real => "REAL"
  | type .blob => "BLOB"
  | type .null => "NULL"
  | type .unknown => ""
  | notNull => "NOT NULL"
  | autoIncrement => "AUTO_INCREMENT"
  | default literal => "DEFAULT " ++ literal

theorem ColumnPart.word_eq (p : ColumnPart) : p.word = p.text := by
  cases p with
  | type t => cases t <;> rfl
  | notNull | autoIncrement | default => rfl

/-- What becomes of a row that refers to another one. -/
def actionWord : Action → String
  | .noAction => "NO ACTION"
  | .restrict => "RESTRICT"
  | .setNull => "SET NULL"
  | .setDefault => "SET DEFAULT"
  | .cascade => "CASCADE"

theorem actionWord_eq (a : Action) : actionWord a = a.keyword := by cases a <;> rfl

def Row.segments : Row → List Segment
  | column n form => .name n :: (columnParts form).map fun p => .word (" " ++ p.word)
  | primaryKey columns => .word "PRIMARY KEY (" :: (nameSegments columns ++ [.word ")"])
  | foreignKey key =>
    .word "FOREIGN KEY (" :: (nameSegments key.localColumns ++
      .word ") REFERENCES " :: .name key.target :: .word "(" :: (nameSegments key.foreignColumns ++
        [.word ") ON DELETE ", .word (actionWord key.onDelete), .word " ON UPDATE ",
          .word (actionWord key.onUpdate)]))
  | unique columns => .word "UNIQUE (" :: (nameSegments columns ++ [.word ")"])

theorem spell_row (r : Row) : spell r.segments = r.text.toList := by
  unfold Row.text
  cases r with
  | column n form =>
      rw [toList_intercalate_cons, List.flatMap_map]
      simp [Row.segments, spell, List.flatMap_map, Segment.text, ColumnPart.word_eq]
  | primaryKey | unique => simp [Row.segments, Segment.text, spell_nameSegments]
  | foreignKey key =>
      simp only [Row.segments, actionWord_eq]
      simp [Segment.text, spell_nameSegments]

/-- Rows one below the other, set off by four blanks. -/
def rowSegments : List Row → List Segment
  | [] => []
  | [r] => .word "    " :: r.segments
  | r :: s :: rows => .word "    " :: (r.segments ++ .word ",\n" :: rowSegments (s :: rows))

theorem spell_rowSegments : ∀ rows : List Row,
    spell (rowSegments rows) = (",\n".intercalate ((rows.map Row.text).map ("    " ++ ·))).toList
  | [] => by simp [rowSegments]
  | [r] => by simp [rowSegments, spell_row, Segment.text]
  | r :: s :: rows => by
    have hrest := spell_rowSegments (s :: rows)
    rw [List.map_cons, List.map_cons] at hrest
    rw [List.map_cons, List.map_cons, List.map_cons, List.map_cons, String.intercalate_cons_cons]
    simp [rowSegments, spell_row, Segment.text, hrest]

/-! ## Statements -/

namespace Statement

def segments : Statement → List Segment
  | addColumn table column form =>
    .word "ALTER TABLE " :: .name table :: .word " ADD COLUMN " :: (Row.column column form).segments
  | fillColumn table column =>
    [.word "UPDATE ", .name table, .word " SET ", .name column, .word " = (abs(random()) % 10000000)"]
  | createTable name rows =>
    .word "CREATE TABLE " :: .name name :: .word " (\n" :: (rowSegments rows ++ [.word "\n)"])
  | copyRows source target columns =>
    .word "INSERT INTO " :: .name target :: .word " (" :: (nameSegments columns ++
      .word ") SELECT " :: (nameSegments columns ++ [.word " FROM ", .name source]))
  | dropTable name => [.word "DROP TABLE ", .name name]
  | renameTable old new => [.word "ALTER TABLE ", .name old, .word " RENAME TO ", .name new]

def text (s : Statement) : String := spelling s.segments

theorem text_addColumn (table : String) (c : Column) (value : String) :
    (addColumn table c.name { c.form with default := some value }).text =
      alterTable table ++ " ADD COLUMN " ++ defineColumn c (some value) false := by
  have hrow : (Row.column c.name { c.form with default := some value }).text =
      defineColumn c (some value) false := text_column { c with default := some value }
  refine spelling_of_spell ?_
  rw [← hrow, alterTable]
  simp [segments, spell_row, Segment.text]

theorem text_fillColumn (table column : String) : (fillColumn table column).text =
    "UPDATE " ++ quote table ++ " SET " ++ quote column ++ " = " ++ uniqueFill := by
  refine spelling_of_spell ?_
  simp [segments, Segment.text, uniqueFill]

theorem text_createTable {t : Table} (hnames : ∀ name x, t.columns.get? name = some x → x.name = name)
    (name : String) : (createTable name (formRows t.form)).text = createTableAs name t := by
  refine spelling_of_spell ?_
  unfold createTableAs createTableOf
  rw [← text_formRows hnames]
  simp [segments, spell_rowSegments, Segment.text]

theorem text_copyRows (source target : String) (columns : List String) :
    (copyRows source target columns).text = Sql.copyRows source target columns :=
  spelling_of_spell (spell_segments (.copyRows source target columns))

theorem text_dropTable (name : String) : (dropTable name).text = Sql.dropTable name :=
  spelling_of_spell (spell_segments (.dropTable name))

theorem text_renameTable (old new : String) : (renameTable old new).text = Sql.renameTable old new :=
  spelling_of_spell (spell_segments (.renameTable old new))

end Statement
end SchemaSync.Sql
