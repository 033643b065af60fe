import SchemaSync.Model.Attribute
import SchemaSync.Model.TypeBuilding
import SchemaSync.OrderedMap

/-!
# Declarations

Tables as an application declares them: fields with types, markers and defaults, and settings for the
table as a whole. A declaration may build on an earlier one: it takes over the fields in their order and
the settings one by one, and replaces those that it declares again. A name that starts with an underscore
is private: such a field is no part of the table, and such a declaration stands for none.
-/

namespace SchemaSync

inductive FieldDefault where
  | absent
  /-- A default that is made anew for each record; the schema cannot hold it. -/
  | made
  | value (v : Value)

/-- How a description of a field tells its default. -/
def FieldDefault.parts : FieldDefault → List String
  | absent => []
  | made => ["default_factory=list"]
  | value v => ["default=" ++ v.shown]

structure Field where
  name : String
  type : FieldType
  markers : List Marker
  otherName : Option String
  default : FieldDefault

def isPrivateName (name : String) : Bool := name.toList.head? == some '_'

namespace Field

/-- A field whose type may carry markers; they come before the field's own. -/
def declare (name : String) (type : FieldType) (markers : List Marker) (otherName : Option String)
    (default : FieldDefault) : Field :=
  let (bare, first) := type.withoutMarkers
  { name, type := bare, markers := first ++ markers, otherName, default }

/-- The name of the field's column: its other name, unless that is empty, or its own. -/
def columnName (f : Field) : String :=
  match f.otherName with
  | none => f.name
  | some a => if a == "" then f.name else a

/-- The name under which a declaration holds its settings; no field goes by it. -/
def settingsName : String := "model_config"

def isStored (f : Field) : Bool := !isPrivateName f.name && f.name != settingsName

/-- The parts of the description of a field: its type, whether a record has to give it, its default, its
other name, which comes before names that are derived, and its markers. -/
def parts (f : Field) : List String :=
  ["annotation=" ++ f.type.brief, "required=" ++ (if f.default.parts.isEmpty then "True" else "False")] ++
    f.default.parts ++
    (match f.otherName with
      | some a => ["alias=" ++ Text.Quoted.quote a, "alias_priority=2"]
      | none => []) ++
    (if f.markers.isEmpty then []
      else ["metadata=[" ++ ", ".intercalate (f.markers.map Marker.shown) ++ "]"])

def description (f : Field) : Value :=
  .described ("FieldInfo(" ++ ", ".intercalate f.parts ++ ")") (" ".intercalate f.parts)

/-- Whether a field gives no default and no other name. -/
def isBare (f : Field) : Bool :=
  match f.otherName, f.default with
  | none, .absent => true
  | _, _ => false

/-- An attribute as a value, where the fields `known` are there so far. -/
def attributeValue (known : List Field) : Attribute → Value
  | .operation text => .described text text
  | .fields => .dict (known.map fun f => (.text f.name, f.description))
  | .computedFields => .dict []

/-- A field as a declaration has it that says nothing of it beyond its type: where the declaration has an
attribute of the field's name, that is what it finds there, whatever was given before. The declaration
builds on the fields `known`. -/
def within (declaration : String) (known : List Field) (f : Field) : Field :=
  match Attribute.ofName? declaration f.name with
  | some a => { f with otherName := none, default := .value (attributeValue known a) }
  | none => f

def declaredBy (declaration : String) (known : List Field) (f : Field) : Field :=
  if f.isBare then f.within declaration known else f

end Field

structure IndexDeclaration where
  name : String
  columns : List String
  unique : Bool

/-- A declared foreign key of a table; without foreign columns it refers to the target's primary key. -/
structure ForeignKeyDeclaration where
  columns : List String
  table : String
  foreignColumns : List String
  onDelete : String
  onUpdate : String

inductive Setting (α : Type) where
  /-- Nothing: the setting of the declaration it builds on holds. -/
  | inherited
  /-- That there is none. -/
  | cleared
  | given (value : α)

/-- The setting that holds, given the one of the declaration that is built on. -/
def Setting.over {α : Type} (base : Option α) : Setting α → Option α
  | inherited => base
  | cleared => none
  | given a => some a

structure Settings where
  tableName : Setting String
  primaryKey : Setting (List String)
  uniqueTogether : Setting (List (List String))
  indexes : Setting (List IndexDeclaration)
  foreignKeys : Setting (List ForeignKeyDeclaration)

structure TableSettings where
  tableName : Option String
  primaryKey : Option (List String)
  uniqueTogether : Option (List (List String))
  indexes : Option (List IndexDeclaration)
  foreignKeys : Option (List ForeignKeyDeclaration)

def TableSettings.unset : TableSettings := ⟨none, none, none, none, none⟩

/-- The settings that hold when a declaration builds on another one. -/
def Settings.over (base : TableSettings) (s : Settings) : TableSettings where
  tableName := s.tableName.over base.tableName
  primaryKey := s.primaryKey.over base.primaryKey
  uniqueTogether := s.uniqueTogether.over base.uniqueTogether
  indexes := s.indexes.over base.indexes
  foreignKeys := s.foreignKeys.over base.foreignKeys

structure Model where
  name : String
  fields : OrderedMap String Field
  settings : TableSettings

namespace Model

/-- The name of the table: the one that is set, or the name of the declaration. -/
def tableName (m : Model) : String := m.settings.tableName.getD m.name

/-- Whether a declaration stands for a table, and not only for others to build on. -/
def isRegistered (m : Model) : Bool :=
  m.name != "TableModel" && !isPrivateName m.name

/-- The column of a field, for the settings that may name fields or columns. -/
def columnName (m : Model) (name : String) : String :=
  match m.fields.get? name with
  | some f => f.columnName
  | none => name

def declare (base : Option Model) (name : String) (fields : List Field) (settings : Settings) :
    Model where
  name
  fields :=
    let inherited := match base with
      | some b => b.fields
      | none => .empty
    ((fields.filter Field.isStored).map (Field.declaredBy name inherited.values)).foldl
      (fun m f => m.insert f.name f) (inherited.map (Field.within name inherited.values))
  settings := settings.over (match base with
    | some b => b.settings
    | none => .unset)

end Model

abbrev Registry := List Model

namespace Registry

def find? (r : Registry) (name : String) : Option Model :=
  (r.filter fun m => m.name == name).getLast?

/-- The last declaration of a name, as the target of a reference. -/
def target? (r : Registry) (name : String) : Option ReferenceTarget :=
  (r.find? name).map fun m =>
    let place := r.length - 1 - r.reverse.findIdx fun m => m.name == name
    .declared place m.name m.tableName

def registered (r : Registry) : List Model := r.filter Model.isRegistered

end Registry
end SchemaSync
