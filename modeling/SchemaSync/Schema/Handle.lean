/-!
# Handles

The parts of a schema have an identity of their own, apart from their names: two columns may come to
have one name, and a part keeps its identity when it is renamed. A handle is such an identity, and it
carries the kind of the part in its type.
-/

namespace SchemaSync

inductive Kind where
  | snapshot
  | table
  | column
  | index
  | unique
  | foreignKey

/-- The identity of a part of the given kind. -/
structure Handle (kind : Kind) where
  number : Nat
  deriving DecidableEq, Repr

abbrev SnapshotId := Handle .snapshot
abbrev TableId := Handle .table
abbrev ColumnId := Handle .column
abbrev IndexId := Handle .index
abbrev UniqueId := Handle .unique
abbrev ForeignKeyId := Handle .foreignKey

instance (kind : Kind) : Inhabited (Handle kind) := ⟨⟨0⟩⟩

end SchemaSync
