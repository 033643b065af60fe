import SchemaSync.Schema.Basic
import SchemaSync.Text.Quoted

/-!
# Violations of the structural rules

Every way in which a schema can break a rule, or an edit can ask for something that would, with the one
wording of each.
-/

namespace SchemaSync

inductive Violation where
  /-- A table stands under another name than its own, or in another snapshot than its own. -/
  | tableMisplaced (key : String)
  /-- The filled primary key slots are not `1`, `2`, … -/
  | slotsUnassigned (table : String) (slots : List Int)
  /-- A primary key column is not a column of the table. -/
  | keyColumnElsewhere (column table : String)
  /-- Two primary key slots hold columns of one name. -/
  | keyRepeats (table : String) (columns : List String)
  | columnMisplaced (key table : String)
  | indexMisplaced (key table : String)
  | indexColumnElsewhere (index column table : String)
  | foreignKeyMisplaced (table : String)
  | selfReference (table : String)
  | noForeignColumns
  | noLocalColumns
  | unevenColumns
  | foreignColumnElsewhere (column target : String)
  | localColumnElsewhere (column table : String)
  | localRepeats (column : String)
  | foreignRepeats (column : String)
  | uniqueMisplaced (table : String)
  | uniqueColumnElsewhere (column table : String)
  | uniqueRepeats (column table : String)
  /-- Two tables hold an index under one name. -/
  | indexOnTwoTables (index first second : String)
  /-- A foreign key refers to a table that its snapshot does not hold. -/
  | targetOutside (table target : String)
  | slotBelowOne
  | slotTaken (slot : Int) (table : String)
  | alreadyInKey (column table : String)
  | repeatedUnique (columns : List String) (table : String)
  | targetOfOtherSchema (target table : String)
  | stillReferenced (table : String) (referencing : List String)
  | tableExists (table : String)
  | columnExists (column table : String)
  | indexExists (index table : String)
  /-- A unique index where a unique constraint should be declared. -/
  | uniqueIndex (index table : String)
  deriving DecidableEq

namespace Violation

def showSlots (slots : List Int) : String := "[" ++ ", ".intercalate (slots.map toString) ++ "]"

def message : Violation → String
  | tableMisplaced key => "Table " ++ key ++ " must belong to this schema"
  | slotsUnassigned table slots =>
    "Primary key of table " ++ table ++ " has unassigned slots (assigned: " ++ showSlots slots ++ ")"
  | keyColumnElsewhere column table =>
    "Primary key column " ++ column ++ " must belong to table " ++ table
  | keyRepeats table columns =>
    "Primary key of table " ++ table ++ " repeats a column (" ++ Text.Quoted.quoteList columns ++ ")"
  | columnMisplaced key table => "Column " ++ key ++ " must belong to table " ++ table
  | indexMisplaced key table => "Index " ++ key ++ " must belong to table " ++ table
  | indexColumnElsewhere index column table =>
    "Index " ++ index ++ " column " ++ column ++ " must belong to table " ++ table
  | foreignKeyMisplaced table => "Foreign key must belong to table " ++ table
  | selfReference table => "Foreign key on table " ++ table ++ " must not reference its own table"
  | noForeignColumns => "Foreign columns must not be empty"
  | noLocalColumns => "Local columns must not be empty"
  | unevenColumns => "Foreign key columns and local columns must have the same length"
  | foreignColumnElsewhere column target =>
    "Foreign key column " ++ column ++ " must belong to the foreign table " ++ target
  | localColumnElsewhere column table =>
    "Local column " ++ column ++ " must belong to the local table " ++ table
  | localRepeats column => "Local columns must be unique: " ++ column
  | foreignRepeats column => "Foreign columns must be unique: " ++ column
  | uniqueMisplaced table => "Unique must belong to table " ++ table
  | uniqueColumnElsewhere column table =>
    "Unique column " ++ column ++ " must belong to table " ++ table
  | uniqueRepeats column table =>
    "Unique columns must be unique: " ++ column ++ " on table " ++ table
  | indexOnTwoTables index first second =>
    "Duplicate index: " ++ index ++ " on tables " ++ first ++ " and " ++ second
  | targetOutside table target =>
    "Foreign key on table " ++ table ++ " references table " ++ target ++ " outside this schema"
  | slotBelowOne => "Primary key slot must be greater than 0 (slot 0 means no primary key)"
  | slotTaken slot table =>
    "Primary key slot " ++ toString slot ++ " already set on table " ++ table
  | alreadyInKey column table =>
    "Column " ++ column ++ " already in the primary key of table " ++ table
  | repeatedUnique columns table =>
    "Duplicate unique (" ++ ", ".intercalate columns ++ ") on table " ++ table
  | targetOfOtherSchema target table =>
    "Foreign table " ++ target ++ " must belong to the same schema as " ++ table
  | stillReferenced table referencing =>
    "Table " ++ table ++ " is still referenced by: " ++ ", ".intercalate referencing
  | tableExists table => "Duplicate table: " ++ table
  | columnExists column table => "Duplicate column: " ++ column ++ " on table " ++ table
  | indexExists index table => "Duplicate index: " ++ index ++ " (already on table " ++ table ++ ")"
  | uniqueIndex index table =>
    "Unique index " ++ index ++ " on table " ++ table ++ " is not supported, declare it as UNIQUE"

/-- The name that is taken, where the violation is that a name is taken. -/
def takenName? : Violation → Option String
  | tableExists name | columnExists name _ | indexExists name _ | indexOnTwoTables name _ _ =>
    some name
  | _ => none

end Violation
end SchemaSync
