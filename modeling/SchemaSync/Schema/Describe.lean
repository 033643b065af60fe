import SchemaSync.Schema.Basic
import SchemaSync.Text.Quoted

/-!
# Descriptions

Readable forms of tables and snapshots: a block of lines for looking at a schema, and a one-line form
with the names alone.
-/

namespace SchemaSync

def commaNames (columns : List Column) : String := ", ".intercalate (columnNames columns)

namespace Column

def describe (c : Column) : String :=
  " ".intercalate ([c.name] ++
    (if c.type = .unknown then [] else [c.type.keyword]) ++
    (if c.notNull then ["NOT NULL"] else []) ++
    (if c.autoIncrement then ["AUTOINCREMENT"] else []) ++
    (c.default.map ("DEFAULT " ++ ·)).toList)

end Column

namespace ForeignKey

def describe (f : ForeignKey) : String :=
  "FOREIGN KEY (" ++ commaNames f.localColumns ++ ") REFERENCES " ++ f.targetName ++ " (" ++
    commaNames f.foreignColumns ++ ") ON UPDATE " ++ f.onUpdate.keyword ++ " ON DELETE " ++
    f.onDelete.keyword

end ForeignKey

namespace Table

/-- Lines after an empty one, or nothing where there are none. -/
def block (lines : List String) : List String := if lines.isEmpty then [] else "" :: lines

def describeLines (t : Table) : List String :=
  ["Table (" ++ t.name ++ ") \x7b"] ++
    t.columns.values.map (fun c => "    " ++ c.describe) ++
    ["", "    PRIMARY KEY (" ++ commaNames t.primaryKey ++ ")"] ++
    t.uniques.map (fun u => "    UNIQUE (" ++ commaNames u.columns ++ ")") ++
    block (t.foreignKeys.map fun f => "    " ++ f.describe) ++
    block (t.indexes.values.map fun i =>
      "    INDEX " ++ i.name ++ " (" ++ commaNames i.columns ++ ")") ++
    ["\x7d"]

def describe (t : Table) : String := "\n".intercalate t.describeLines

def shown (t : Table) : String :=
  "Table(name=" ++ Text.Quoted.quote t.name ++ ", columns=" ++
    Text.Quoted.quoteList t.columns.keys ++ ")"

end Table

namespace Snapshot

def describe (s : Snapshot) : String := "\n\n".intercalate (s.tables.values.map Table.describe)

def shown (s : Snapshot) : String := "SchemaState(tables=" ++ Text.Quoted.quoteList s.tables.keys ++ ")"

end Snapshot
end SchemaSync
