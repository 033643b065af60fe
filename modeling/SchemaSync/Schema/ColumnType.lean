import SchemaSync.Text.Blank
import SchemaSync.Text.Upper

/-!
# Column types

The storage classes of a column and how a declared type text is read as one of them.
-/

namespace SchemaSync

/-- The storage class that a column is declared with. -/
inductive ColumnType where
  | integer
  | text
  | real
  | blob
  | null
  /-- No storage class; such a column is written without a type. -/
  | unknown
  deriving DecidableEq, Repr, Inhabited

namespace ColumnType

/-- The keyword of a storage class; the unknown one has the empty keyword. -/
def keyword : ColumnType → String
  | integer => "INTEGER"
  | text => "TEXT"
  | real => "REAL"
  | blob => "BLOB"
  | null => "NULL"
  | unknown => ""

def all : List ColumnType := [integer, text, real, blob, null, unknown]

def ofKeyword? (s : String) : Option ColumnType := all.find? fun t => t.keyword == s

/-- A keyword is read back as its storage class. -/
theorem ofKeyword?_keyword (t : ColumnType) : ofKeyword? t.keyword = some t := by
  cases t <;> decide

def isNumeric : ColumnType → Bool
  | integer | real => true
  | _ => false

/-- A literal that gives existing rows a legal value. -/
def placeholder (t : ColumnType) : String := if t.isNumeric then "0" else "''"

/-- What a declared type text turns out to be. -/
inductive Reading where
  /-- A storage class, or no type at all. -/
  | known (type : ColumnType)
  /-- No storage class; the text is trimmed and in upper case. -/
  | unrecognised (text : String)
  deriving DecidableEq

def Reading.type : Reading → ColumnType
  | known t => t
  | unrecognised _ => unknown

/-- Read a declared type text: blanks around it and letter case do not matter, `INT` is `INTEGER`,
and an empty text declares no type. -/
def read (s : String) : Reading :=
  let word := Text.Upper.upper (Text.Blank.trim s)
  if word == "" then .known unknown
  else if word == "INT" then .known integer
  else
    match ofKeyword? word with
    | some t => .known t
    | none => .unrecognised word

end ColumnType
end SchemaSync
