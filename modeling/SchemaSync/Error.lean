import SchemaSync.Connection.Basic
import SchemaSync.Diff.Planning
import SchemaSync.Model.Assembly
import SchemaSync.Value.Reading

/-!
# Errors of a push

Everything that can end a push. Some of it is foreseen: what is wrong with schemas, declarations and the
database is reported to the user in its own words. The rest is not meant to be met.
-/

namespace SchemaSync

/-- Why no module can be looked for under a name. -/
inductive ModuleNameFault where
  | empty
  /-- The name starts with a dot: it is relative to a package, and there is none. -/
  | relative (name : String)
  deriving DecidableEq

def ModuleNameFault.message : ModuleNameFault → String
  | empty => "Empty module name"
  | relative name => "the 'package' argument is required to perform a relative import for " ++
      Text.Quoted.quote name

inductive SyncError where
  | edit (cause : EditError)
  | literal (cause : Sql.LiteralError)
  | value (fault : Value.ReadFault)
  | unsupportedType (field type : String)
  | ambiguousUnion (field type : String)
  /-- A declared type cannot be made. -/
  | typeFault (fault : FieldType.Fault)
  | moduleName (fault : ModuleNameFault)
  | plan (cause : PlanError)
  | render (cause : Sql.RenderError)
  /-- A catalog row cannot be read. -/
  | row (problems : List Rows.FieldProblem)
  | driver (fault : DriverFault)
  /-- Applying some statements failed with a complaint. -/
  | execution (complaint : String) (statements : List String)

namespace SyncError

def ofModel : Model.Error → SyncError
  | .edit cause => edit cause
  | .literal cause => literal cause
  | .unsupportedType field type => unsupportedType field type
  | .ambiguousUnion field type => ambiguousUnion field type

def message : SyncError → String
  | edit cause => cause.message
  | literal cause => cause.message
  | value fault => fault.message
  | unsupportedType field type => (Model.Error.unsupportedType field type).message
  | ambiguousUnion field type => (Model.Error.ambiguousUnion field type).message
  | typeFault fault => fault.message
  | moduleName fault => fault.message
  | plan cause => cause.message
  | render cause => cause.message
  | row _ => "catalog row of the wrong shape"
  | driver fault => fault.message
  | execution complaint _ => "Failed to apply schema changes: " ++ complaint

def isForeseen : SyncError → Bool
  | edit (.violation _) | edit (.noTable _) | edit (.noColumn ..) => true
  | unsupportedType .. | ambiguousUnion .. | plan _ | execution .. => true
  | _ => false

end SyncError
end SchemaSync
