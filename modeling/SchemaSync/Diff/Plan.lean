import SchemaSync.Catalog.Basic
import SchemaSync.Diff.Operation
import SchemaSync.Diff.Summary

/-!
# Plans

The ordered operations that turn one snapshot into another, with the summary and the classification
that they come from. A plan is applied as a whole or not at all.
-/

namespace SchemaSync

/-- The operations of a push, in the order in which they are carried out. -/
structure Plan where
  operations : List Operation
  summary : Summary
  /-- The change of every table that stands in both snapshots. -/
  changes : OrderedMap String Change
  creationMode : Bool

def Operation.allStatements : List Operation → Except Sql.RenderError (List String)
  | [] => pure []
  | op :: ops => do
    let first ← op.statements
    pure (first ++ (← allStatements ops))

namespace Plan

def statements (p : Plan) : Except Sql.RenderError (List String) :=
  Operation.allStatements p.operations

def isEmpty (p : Plan) : Bool := p.operations.isEmpty

theorem isEmpty_iff {p : Plan} : p.isEmpty = true ↔ p.operations = [] := List.isEmpty_iff

def numberedLines (start : Nat) : List Operation → List String
  | [] => []
  | op :: ops => ("  " ++ start.repr ++ ". " ++ op.describe) :: numberedLines (start + 1) ops

/-- A plan as a list of numbered lines. -/
def describe (p : Plan) : String :=
  "\n".intercalate (("Operations (" ++ p.operations.length.repr ++ "):") ::
    numberedLines 1 p.operations)

def shown (p : Plan) : String :=
  "MigrationPlan(operations=" ++ p.operations.length.repr ++ ", creation_mode=" ++
    (if p.creationMode then "True" else "False") ++ ")"

end Plan

/-! ### Plans over a catalog that goes on changing -/

namespace Operation

/-- The operation with its parts as the catalog holds them now. Names that an operation keeps apart
from its parts stay. -/
def refresh (c : Catalog) : Operation → Operation
  | dropForeignKey table column => dropForeignKey table (c.column column.id)
  | createTable table references => createTable (c.table table.id) references
  | addColumn table column => addColumn table (c.column column.id)
  | recreateTable current desired reasons suffix =>
    recreateTable (c.table current.id) (c.table desired.id) reasons suffix
  | addForeignKey table column foreignKey =>
    addForeignKey table (c.column column.id) (c.foreignKey foreignKey.id)
  | op => op

end Operation

def Plan.refresh (c : Catalog) (p : Plan) : Plan :=
  { p with operations := p.operations.map (Operation.refresh c) }

end SchemaSync
