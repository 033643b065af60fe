import SchemaSync.Sql.Identifier

/-!
# Statements made of names

The statements that are written from names alone. Names are quoted, so any text can be a name.
-/

namespace SchemaSync.Sql

open Identifier (quote quoteList)

def dropTable (table : String) : String := "DROP TABLE " ++ quote table

def dropColumn (table column : String) : String :=
  "ALTER TABLE " ++ quote table ++ " DROP COLUMN " ++ quote column

def copyRows (source target : String) (columns : List String) : String :=
  "INSERT INTO " ++ quote target ++ " (" ++ quoteList columns ++ ") SELECT " ++ quoteList columns ++
    " FROM " ++ quote source

def renameTable (old new : String) : String :=
  "ALTER TABLE " ++ quote old ++ " RENAME TO " ++ quote new

def createIndex (table index : String) (columns : List String) : String :=
  "CREATE INDEX IF NOT EXISTS " ++ quote index ++ " ON " ++ quote table ++ " (" ++
    quoteList columns ++ ")"

def dropIndex (index : String) : String := "DROP INDEX " ++ quote index

end SchemaSync.Sql
