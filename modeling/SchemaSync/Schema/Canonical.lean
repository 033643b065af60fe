import SchemaSync.Schema.Basic
import SchemaSync.Text.Percent

/-!
# Canonical forms

Forms of constraints in which the order of columns does not count. A list of columns becomes the sorted
list of its percent-encoded names, so that no name can hold the delimiter.
-/

namespace SchemaSync

def sortTexts (texts : List String) : List String := texts.mergeSort fun a b => decide (a ≤ b)

/-- The texts without repetitions, each at its first place. -/
def distinctTexts (texts : List String) : List String :=
  texts.foldl (fun seen t => if seen.contains t then seen else seen ++ [t]) []

def canonicalColumns (columns : List Column) : String :=
  ",".intercalate (sortTexts ((columnNames columns).map Text.Percent.encode))

namespace Unique

def canonical (u : Unique) : String := canonicalColumns u.columns

end Unique

namespace ForeignKey

/-- The canonical form of a foreign key: its columns on either side, its target and its actions. -/
def canonical (f : ForeignKey) : String :=
  canonicalColumns f.localColumns ++ " -> " ++ canonicalColumns f.foreignColumns ++ " on " ++
    f.targetName ++ " | " ++ f.onDelete.keyword ++ " | " ++ f.onUpdate.keyword

end ForeignKey

namespace Table

/-- The canonical form of the unique constraints of a table, in which order and repetitions do not
count. -/
def canonicalUniques (t : Table) : String :=
  ",".intercalate (sortTexts (distinctTexts (t.uniques.map Unique.canonical)))

/-- The canonical form of the foreign keys of a table, in which order and repetitions do not count. -/
def canonicalForeignKeys (t : Table) : String :=
  ",".intercalate (sortTexts (distinctTexts (t.foreignKeys.map ForeignKey.canonical)))

def canonicalPrimaryKey (t : Table) : String := canonicalColumns t.primaryKey

end Table

/-- Sorting keeps the texts. -/
theorem perm_sortTexts (texts : List String) : (sortTexts texts).Perm texts :=
  List.mergeSort_perm texts _

end SchemaSync
