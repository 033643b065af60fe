/-!
# Changes of a table

How a table that stands in both snapshots is brought from one to the other: not at all, by statements of
its own, or by a rebuild for stated reasons.
-/

namespace SchemaSync

inductive Reason where
  | typeChanged (column table : String)
  | nullabilityChanged (column table : String)
  | defaultChanged (column table : String) (old new : Option String)
  | addedColumns
  | primaryKey
  | uniques
  | foreignKeys
  | uniqueIndexes
  /-- A reason in free words. -/
  | stated (text : String)
  deriving DecidableEq

namespace Reason

def defaultText (default : Option String) : String := default.getD "NULL"

def text : Reason → String
  | typeChanged column table => "type of column " ++ column ++ " of table " ++ table
  | nullabilityChanged column table => "notNull of column " ++ column ++ " of table " ++ table
  | defaultChanged column table old new =>
    "default of column " ++ column ++ " of table " ++ table ++ " (from " ++ defaultText old ++
      " to " ++ defaultText new ++ ")"
  | addedColumns => "added columns"
  | primaryKey => "pk"
  | uniques => "uniques"
  | foreignKeys => "fks"
  | uniqueIndexes => "unique indexes (migrate to UNIQUE on definition)"
  | stated text => text

/-- Whether a reason touches columns or constraints that other tables may refer to. Only such reasons
invalidate the foreign keys of referring tables. -/
def isStructural : Reason → Bool
  | addedColumns | primaryKey | uniques | foreignKeys | uniqueIndexes => true
  | _ => false

end Reason

structure InPlace where
  addedColumns : List String
  removedColumns : List String
  addedIndexes : List String
  removedIndexes : List String
  deriving DecidableEq

inductive Change where
  | unchanged
  | incremental (edits : InPlace)
  | recreate (reasons : List Reason)
  deriving DecidableEq

namespace Change

def reasonText (reasons : List Reason) : String := ", ".intercalate (reasons.map Reason.text)

def isStructural : Change → Bool
  | recreate reasons => reasons.any Reason.isStructural
  | _ => false

def ofInPlace (edits : InPlace) : Change :=
  if edits.addedColumns.isEmpty && edits.removedColumns.isEmpty && edits.addedIndexes.isEmpty &&
      edits.removedIndexes.isEmpty then unchanged
  else incremental edits

end Change
end SchemaSync
