/-!
# Attributes of declarations

Every declaration has some attributes before it declares anything: operations by their names, and
collections of what the declarations that it builds on declare. A field of such a name finds the attribute
in the place of its default.
-/

namespace SchemaSync

/-- Something that every declaration has. -/
inductive Attribute where
  /-- An operation, by the text that stands for it as a value. -/
  | operation (text : String)
  /-- The fields that are there so far. -/
  | fields
  /-- The fields that are computed from others; there are none. -/
  | computedFields
  deriving DecidableEq

namespace Attribute

/-- The home of the declarations, and of the types that are made for them. -/
def home : String := "app"

/-- How a message shows a declaration. -/
def shownDeclaration (declaration : String) : String :=
  "<class '" ++ home ++ "." ++ declaration ++ "'>"

/-- The names of the operations, each with what provides it. -/
def providers : List (String × String) :=
  [("register", "ModelMetaclass"), ("get_table_name", "TableModel"), ("get_primary_key", "TableModel"),
    ("get_unique_together", "TableModel"), ("get_indexes", "TableModel"),
    ("get_foreign_keys", "TableModel"), ("model_construct", "BaseModel"),
    ("model_json_schema", "BaseModel"), ("model_parametrized_name", "BaseModel"),
    ("model_rebuild", "BaseModel")]

def collections : List (String × Attribute) :=
  [("model_fields", fields), ("model_computed_fields", computedFields)]

def ofName? (declaration name : String) : Option Attribute :=
  collections.lookup name <|> (providers.lookup name).map fun provider =>
    operation ("<bound method " ++ provider ++ "." ++ name ++ " of " ++ shownDeclaration declaration ++ ">")

end Attribute
end SchemaSync
