/-!
# Decimal digits of every script

The characters that stand for a digit in some script. Each script has its ten digits in a row, so a table
of the zeros names them all. Numbers that come from outside may be spelled in any of them.
-/

namespace SchemaSync.Text.Digit

/-- The code points of the zeros, in ascending order. -/
def zeros : List Nat := [
  0x30, 0x660, 0x6f0, 0x7c0, 0x966, 0x9e6, 0xa66, 0xae6, 0xb66, 0xbe6, 0xc66, 0xce6, 0xd66, 0xde6,
  0xe50, 0xed0, 0xf20, 0x1040, 0x1090, 0x17e0, 0x1810, 0x1946, 0x19d0, 0x1a80, 0x1a90, 0x1b50,
  0x1bb0, 0x1c40, 0x1c50, 0xa620, 0xa8d0, 0xa900, 0xa9d0, 0xa9f0, 0xaa50, 0xabf0, 0xff10, 0x104a0,
  0x10d30, 0x11066, 0x110f0, 0x11136, 0x111d0, 0x112f0, 0x11450, 0x114d0, 0x11650, 0x116c0, 0x11730,
  0x118e0, 0x11950, 0x11c50, 0x11d50, 0x11da0, 0x16a60, 0x16ac0, 0x16b50, 0x1d7ce, 0x1d7d8, 0x1d7e2,
  0x1d7ec, 0x1d7f6, 0x1e140, 0x1e2f0, 0x1e950, 0x1fbf0
]

def value? (c : Char) : Option Nat :=
  (zeros.find? fun z => decide (z ≤ c.toNat) && decide (c.toNat < z + 10)).map (c.toNat - ·)

/-- A digit of any script as one of `0` to `9`; every other character as it is. -/
def plain (c : Char) : Char :=
  match value? c with
  | some d => Nat.digitChar d
  | none => c

/-- The plain form of a digit is one of `0` to `9`. -/
theorem isDigit_plain {c : Char} {d : Nat} (h : value? c = some d) : (plain c).isDigit = true := by
  obtain ⟨z, hz, rfl⟩ := Option.map_eq_some_iff.1 h
  have found := List.find?_some hz
  simp only [Bool.and_eq_true, decide_eq_true_eq] at found
  have : ∀ d < 10, (Nat.digitChar d).isDigit = true := by decide
  simpa only [plain, h] using this (c.toNat - z) (by omega)

end SchemaSync.Text.Digit
