/-!
# Selection of tables

A push considers all tables of a schema, or those whose names have a given start. Tables that the
database keeps for itself are never considered.
-/

namespace SchemaSync.Selection

def startsWith (text start : String) : Bool := start.toList.isPrefixOf text.toList

/-- Whether a table name is chosen: every name is, or those with a given start; an empty start chooses
every name. -/
def isChosen (start : Option String) (table : String) : Bool := startsWith table (start.getD "")

def isInternal (table : String) : Bool := startsWith table "sqlite_"

@[simp] theorem startsWith_empty (text : String) : startsWith text "" = true := by
  simp [startsWith]

/-- Without a start every name is chosen. -/
theorem isChosen_none (table : String) : isChosen none table = true := startsWith_empty table

end SchemaSync.Selection
