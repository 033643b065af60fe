import SchemaSync.Text.Hex
import SchemaSync.Text.Printable

/-!
# Quoted text for messages

How a text is shown inside a message: between single quotes, or between double quotes when it holds a
single quote and no double quote. The quote in use and the backslash are escaped, newline, carriage
return and tab have short escapes, every other unprintable character is written by its code point in
two, four or eight lower-case hexadecimal digits, and the rest stands as it is.
-/

namespace SchemaSync.Text.Quoted

def mark (cs : List Char) : Char :=
  if cs.contains '\'' && !cs.contains '"' then '"' else '\''

/-- One character between quotes `q`. -/
def escape (q c : Char) : List Char :=
  if c = q ∨ c = '\\' then ['\\', c]
  else if c = '\n' then ['\\', 'n']
  else if c = '\r' then ['\\', 'r']
  else if c = '\t' then ['\\', 't']
  else if Printable.isPrintable c then [c]
  else if c.toNat < 0x100 then '\\' :: 'x' :: Hex.digits 2 c.toNat
  else if c.toNat < 0x10000 then '\\' :: 'u' :: Hex.digits 4 c.toNat
  else '\\' :: 'U' :: Hex.digits 8 c.toNat

def quoteChars (cs : List Char) : List Char :=
  mark cs :: cs.flatMap (escape (mark cs)) ++ [mark cs]

/-- A text as a message shows it. -/
def quote (s : String) : String := String.ofList (quoteChars s.toList)

def quoteList (names : List String) : String := "[" ++ ", ".intercalate (names.map quote) ++ "]"

/-- One byte between quotes `q`: bytes outside printable ASCII by two hexadecimal digits. -/
def escapeByte (q : Char) (b : UInt8) : List Char :=
  let c := Char.ofNat b.toNat
  if c = q ∨ c = '\\' then ['\\', c]
  else if c = '\n' then ['\\', 'n']
  else if c = '\r' then ['\\', 'r']
  else if c = '\t' then ['\\', 't']
  else if 0x20 ≤ b.toNat ∧ b.toNat < 0x7f then [c]
  else '\\' :: 'x' :: Hex.digits 2 b.toNat

/-- A byte string as a message shows it: the letter `b` and the bytes between quotes. -/
def quoteBytes (bs : List UInt8) : String :=
  let q := mark (bs.map fun b => Char.ofNat b.toNat)
  String.ofList ('b' :: q :: bs.flatMap (escapeByte q) ++ [q])

end SchemaSync.Text.Quoted
