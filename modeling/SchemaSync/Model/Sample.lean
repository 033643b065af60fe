import SchemaSync.Model.Declaration

/-!
# A sample of declared tables

The tables of a small lending library: readers, and the loans that refer to them. They show each kind of
declaration once and give the program something to plan without an application around it. Beside them
stand types that an application makes of the known ones: an enumeration of texts, one of numbers, one of
neither, and types that add nothing to the one that they are derived from.
-/

namespace SchemaSync.Sample

def plainField (name : String) (type : NamedType) (markers : List Marker) : Field :=
  .declare name (.named type) markers none .absent

/-- Readers, each with a number and at most one address, which no two of them share. -/
def reader : Model :=
  .declare none "Reader"
    [plainField "id" (.common "int" (some .integer)) [.primaryKey],
      plainField "name" (.common "str" (some .text)) [],
      .declare "email" (.union .spelled [.named (.common "str" (some .text)), .named .none]) [.unique] none
        (.value .null)]
    { tableName := .given "readers", primaryKey := .inherited, uniqueTogether := .inherited,
      indexes := .inherited, foreignKeys := .inherited }

/-- Loans: what was lent, to whom, and how often the loan was extended. -/
def loan : Model :=
  .declare none "Loan"
    [plainField "id" (.common "int" (some .integer)) [.primaryKey],
      plainField "title" (.common "str" (some .text)) [],
      plainField "reader" (.common "int" (some .integer))
        [.references (.table "readers") "id" (some "CASCADE") none],
      .declare "extensions" (.named (.common "int" (some .integer))) [] none (.value (.int 0))]
    { tableName := .given "loans", primaryKey := .inherited, uniqueTogether := .inherited,
      indexes := .given [⟨"loans_title_idx", ["title"], false⟩], foreignKeys := .inherited }

/-- The types of the application: the name that declarations use, the known type that each is derived from,
its own name and its sort. -/
def derivedTypes : List (String × String × String × TypeSort) := [
  ("StrEnum", "str", "Status", .enumeration),
  ("IntEnum", "int", "Level", .enumeration),
  ("Enum", "object", "Color", .enumeration),
  ("MyStr", "str", "MyStr", .plain),
  ("MyInt", "int", "MyInt", .plain),
  ("MyFloat", "float", "MyFloat", .plain),
  ("MyBytes", "bytes", "MyBytes", .plain),
  ("MyDate", "date", "MyDate", .plain),
  ("MyDict", "dict", "MyDict", .plain),
  ("MyList", "list", "MyList", .plain)]

def type? (name : String) : Option NamedType :=
  match derivedTypes.lookup name with
  | some (base, own, sort) => (NamedType.known? base).map fun t => t.derived Attribute.home own sort
  | none => NamedType.known? name

def lending : Registry := [reader, loan]

end SchemaSync.Sample
