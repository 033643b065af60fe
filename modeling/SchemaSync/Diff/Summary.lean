import SchemaSync.Diff.Change
import SchemaSync.OrderedMap

/-!
# Summaries

What a plan adds, removes and rebuilds, as names, and the report made of it.
-/

namespace SchemaSync

/-- What a plan adds, removes and rebuilds. -/
structure Summary where
  addedTables : List String
  removedTables : List String
  /-- Columns added in place, with the names of their tables. -/
  addedColumns : List String
  /-- Columns removed in place, with the names of their tables. -/
  removedColumns : List String
  recreatedTables : List String
  /-- The joined reasons of each rebuilt table. -/
  recreateReasons : OrderedMap String String

namespace Summary

/-- The summary of changed tables, beside the tables that come and go. -/
def ofChanges (addedTables removedTables : List String) (changes : OrderedMap String Change) :
    Summary where
  addedTables
  removedTables
  addedColumns := changes.entries.flatMap fun e =>
    match e.2 with
    | .incremental edits => edits.addedColumns.map fun c => e.1 ++ "." ++ c
    | _ => []
  removedColumns := changes.entries.flatMap fun e =>
    match e.2 with
    | .incremental edits => edits.removedColumns.map fun c => e.1 ++ "." ++ c
    | _ => []
  recreatedTables := changes.entries.filterMap fun e =>
    match e.2 with
    | .recreate _ => some e.1
    | _ => none
  recreateReasons := changes.filterMap fun _ change =>
    match change with
    | .recreate reasons => some (Change.reasonText reasons)
    | _ => none

def isEmpty (s : Summary) : Bool :=
  s.addedTables.isEmpty && s.removedTables.isEmpty && s.addedColumns.isEmpty &&
    s.removedColumns.isEmpty && s.recreatedTables.isEmpty

/-- A line of names; a dash where there is nothing to write. -/
def line (label : String) (names : List String) : String :=
  let text := ", ".intercalate names
  label ++ ": " ++ (if text == "" then "-" else text)

/-- The report: a line for each kind of change, then a line for each rebuilt table with its reasons. -/
def describe (s : Summary) : String :=
  "\n".intercalate ([
    line "Add tables" s.addedTables,
    line "Remove tables" s.removedTables,
    line "Add columns" s.addedColumns,
    line "Remove columns" s.removedColumns,
    line "Recreated tables" s.recreatedTables] ++
    s.recreateReasons.entries.map fun e => "  " ++ e.1 ++ ": " ++ e.2)

end Summary
end SchemaSync
