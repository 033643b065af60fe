import SchemaSync.Diff.Change
import SchemaSync.Sql.Definition

/-!
# Operations

The single steps of a plan, the statements that carry each of them out, and their descriptions.
-/

namespace SchemaSync

inductive Operation where
  | dropIndex (table name : String)
  /-- Detach the reference of a column. -/
  | dropForeignKey (table : String) (column : Column)
  | createTable (table : Table) (references : Bool)
  | dropTable (name : String)
  | addColumn (table : String) (column : Column)
  | dropColumn (table name : String)
  /-- Rebuild a table through a shadow table with the given suffix. -/
  | recreateTable (current desired : Table) (reasons : List Reason) (suffix : String)
  /-- Attach the reference of a column. -/
  | addForeignKey (table : String) (column : Column) (foreignKey : ForeignKey)
  | createIndex (table name : String) (columns : List String)
  deriving DecidableEq

namespace Operation

def statements : Operation → Except Sql.RenderError (List String)
  | dropIndex _ name => pure [Sql.dropIndex name]
  | dropForeignKey table column => pure [Sql.dropForeignKey table column]
  | createTable table references => do pure [← Sql.createTable table references none]
  | dropTable name => pure [Sql.dropTable name]
  | addColumn table column => pure (Sql.addColumn table column)
  | dropColumn table name => pure [Sql.dropColumn table name]
  | recreateTable current desired _ suffix => pure (Sql.recreateTable current desired suffix)
  | addForeignKey table column foreignKey => do
    pure [← Sql.addForeignKey table column foreignKey]
  | createIndex table name columns => pure [Sql.createIndex table name columns]

def kind : Operation → String
  | dropIndex .. => "DropIndex"
  | dropForeignKey .. => "DropForeignKey"
  | createTable .. => "CreateTable"
  | dropTable .. => "DropTable"
  | addColumn .. => "AddColumn"
  | dropColumn .. => "DropColumn"
  | recreateTable .. => "RecreateTable"
  | addForeignKey .. => "AddForeignKey"
  | createIndex .. => "CreateIndex"

def describe : Operation → String
  | dropIndex _ name => "Remove index " ++ name
  | dropForeignKey table column => "Remove foreign key " ++ column.name ++ " from table " ++ table
  | createTable table _ => "Create table " ++ table.name
  | dropTable name => "Remove table " ++ name
  | addColumn table column => "Add column " ++ column.name ++ " to table " ++ table
  | dropColumn table name => "Remove column " ++ name ++ " from table " ++ table
  | recreateTable _ desired _ _ => "Recreate table " ++ desired.name
  | addForeignKey table column _ => "Add foreign key " ++ column.name ++ " to table " ++ table
  | createIndex _ name _ => "Add index " ++ name

end Operation
end SchemaSync
