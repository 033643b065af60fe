/-!
# Shadow tables

A table is rebuilt beside itself under a temporary name: its own name, a marker and a suffix of
hexadecimal digits. Which digits a suffix gets is left to whoever supplies the draws.
-/

namespace SchemaSync.Sql.Shadow

def alphabet : List Char := "1234567890abcdef".toList

/-- The digits of one suffix by position. -/
abbrev Draw := Nat → Fin 16

def suffixLength : Nat := 16

def suffix (draw : Draw) (length : Nat) : String :=
  String.ofList ((List.range length).map fun i => alphabet.getD (draw i) '1')

/-- The draw that takes the digits in turn, from digit number `d` on. -/
def inTurn (d : Nat) : Draw := fun i => ⟨(d + i) % 16, Nat.mod_lt _ (by decide)⟩

/-- Suffix number `k` after number `d`, where each starts one digit later than the one before. -/
def suffixInTurn (d k : Nat) : String := suffix (inTurn (d + k)) suffixLength

/-- The temporary name of a table that is being rebuilt. -/
def tableName (table suffix : String) : String := table ++ "__new__" ++ suffix

end SchemaSync.Sql.Shadow
