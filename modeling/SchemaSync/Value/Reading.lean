import SchemaSync.Text.Cut
import SchemaSync.Value.Basic
import SchemaSync.Value.IsoText

/-!
# Reading values

The values that have a text of their own: numbers, byte strings, dates and times, and universally unique
identifiers. A text that spells none is refused with what is wrong with it, and so is a name that no
enumeration or member can have.
-/

namespace SchemaSync.Value

inductive ReadFault where
  | decimal (fault : Decimal.Fault)
  /-- It is no floating-point number. -/
  | real (text : String)
  /-- A byte string lacks a digit at a place. -/
  | bytes (place : Nat)
  | moment (fault : IsoText.Fault)
  /-- An identifier has more or fewer than 32 characters that count. -/
  | identifierLength
  /-- The characters of an identifier are no hexadecimal number. -/
  | identifierDigits (text : String)
  /-- A member's name stands between single underscores. -/
  | reservedName (name : String)
  /-- A member has a name that none can have. -/
  | memberName (name : String)
  /-- An enumeration's name has a null character. -/
  | enumerationName
  deriving DecidableEq

/-- How much of a text a message about hexadecimal digits shows, quotes included. -/
def shownLimit : Nat := 200

def ReadFault.message : ReadFault → String
  | decimal fault => fault.message
  | real s => "could not convert string to float: " ++ Text.Quoted.quote s
  | bytes place => "non-hexadecimal number found in fromhex() arg at position " ++ place.repr
  | moment fault => fault.message
  | identifierLength => "badly formed hexadecimal UUID string"
  | identifierDigits s => "invalid literal for int() with base 16: " ++
      String.ofList ((Text.Quoted.quoteChars s.toList).take shownLimit)
  | reservedName name => "_sunder_ names, such as " ++ Text.Quoted.quote name ++
      ", are reserved for future Enum use"
  | memberName name => "invalid enum member name(s) " ++ Text.Quoted.quote name
  | enumerationName => "type name must not contain null characters"

/-! ### Numbers, bytes, dates and times -/

def readReal (s : String) : Except ReadFault Value :=
  match Shortest.ofText? s with
  | some x => pure (real x)
  | none => throw (.real s)

def readDecimal (s : String) : Except ReadFault Value :=
  ((Decimal.ofString s).map decimal).mapError .decimal

def readBytes (s : String) : Except ReadFault Value :=
  ((Text.Hex.bytes s.toList).map bytes).mapError .bytes

def readDate (s : String) : Except ReadFault Value := ((Date.ofString s).map date).mapError .moment

def readTime (s : String) : Except ReadFault Value := ((TimeOfDay.ofString s).map time).mapError .moment

def readMoment (s : String) : Except ReadFault Value :=
  ((Calendar.momentOfString s).map fun (d, t) => moment d t).mapError .moment

/-! ### Identifiers -/

/-- Characters without any occurrence of `part`, found from left to right. -/
def without (part cs : List Char) : List Char := go 0 cs
where
  /-- The first `skip` characters belong to an occurrence that has been found. -/
  go (skip : Nat) : List Char → List Char
    | [] => []
    | c :: cs =>
      if 0 < skip then go (skip - 1) cs
      else if part ≠ [] ∧ part.isPrefixOf (c :: cs) then go (part.length - 1) cs
      else c :: go 0 cs

def isBrace (c : Char) : Bool := c == '\x7b' || c == '\x7d'

/-- The characters of an identifier that count: without the words that may stand before them, braces
around them and dashes anywhere. -/
def identifierChars (cs : List Char) : List Char :=
  let body := without "uuid:".toList (without "urn:".toList cs)
  ((body.dropWhile isBrace).reverse.dropWhile isBrace).reverse.filter (· != '-')

def readIdentifier (s : String) : Except ReadFault Value :=
  let cs := identifierChars s.toList
  if cs.length = 32 then
    match Text.Hex.number? cs with
    | some n => pure (uuid (Text.Hex.digits 32 n))
    | none => throw (.identifierDigits (String.ofList cs))
  else throw .identifierLength

/-! ### Members of enumerations -/

/-- Whether a name stands between single underscores. -/
def isReserved : List Char → Bool
  | '_' :: c :: rest => c != '_' && (rest.getLast? == some '_') && (c :: rest).dropLast.getLast? != some '_'
  | _ => false

/-- The names between single underscores that have a use. -/
def usedNames : List String := ["_order_", "_generate_next_value_", "_numeric_repr_", "_missing_", "_ignore_"]

def impossibleNames : List String := ["mro", ""]

/-- A member of an enumeration, if both can have their names. -/
def readMember (enumeration name : String) (payload : Value) : Except ReadFault Value :=
  if isReserved name.toList && !usedNames.contains name then throw (.reservedName name)
  else if impossibleNames.contains name then throw (.memberName name)
  else if enumeration.toList.contains '\x00' then throw .enumerationName
  else pure (member enumeration name payload)

example : isReserved "_x_".toList = true ∧ isReserved "__x_".toList = false ∧
    isReserved "___".toList = false ∧ isReserved "_".toList = false := by decide

end SchemaSync.Value
