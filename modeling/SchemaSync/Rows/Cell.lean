import SchemaSync.Number.Shortest
import SchemaSync.Text.Blank

/-!
# Cells

The values that stand in the rows of a query, and how a text or a whole number is read from a cell. A
whole number may come as a truth value, as a floating-point number without a fraction or as a text that
spells it. Reading several cells reports all that cannot be read, each by the name of its field.
-/

namespace SchemaSync.Rows

inductive Cell where
  | null
  | bool (b : Bool)
  | int (i : Int)
  | real (x : Float)
  | text (s : String)
  /-- A value that is no text and no number. -/
  | other

def Cell.isTrue : Cell → Bool
  | .null => false
  | .bool b => b
  | .int i => i != 0
  | .real x => x != 0
  | .text s => s != ""
  | .other => true

inductive Problem where
  | missing
  | notText
  /-- The cell holds nothing that could be a number. -/
  | notNumber
  | notSpelled
  | tooLarge
  | fraction
  /-- The number in the cell is infinite or undefined. -/
  | notFinite
  deriving DecidableEq

def Problem.code : Problem → String
  | missing => "missing"
  | notText => "string_type"
  | notNumber => "int_type"
  | notSpelled => "int_parsing"
  | tooLarge => "int_parsing_size"
  | fraction => "int_from_float"
  | notFinite => "finite_number"

structure FieldProblem where
  field : String
  problem : Problem
  deriving DecidableEq

/-- A result of reading fields, or everything that stands against it. -/
inductive Checked (α : Type) where
  | good (value : α)
  | bad (problems : List FieldProblem)

namespace Checked

variable {α β : Type}

def map (f : α → β) : Checked α → Checked β
  | good a => good (f a)
  | bad ps => bad ps

/-- Read an argument beside a function; the problems of both sides add up in order. -/
def ap : Checked (α → β) → Checked α → Checked β
  | good f, good a => good (f a)
  | good _, bad qs => bad qs
  | bad ps, good _ => bad ps
  | bad ps, bad qs => bad (ps ++ qs)

instance : Functor Checked := { map := fun f x => x.map f }
instance : Seq Checked := { seq := fun f x => f.ap (x ()) }

def toExcept : Checked α → Except (List FieldProblem) α
  | good a => pure a
  | bad ps => throw ps

end Checked

/-! ### Whole numbers in a text -/

/-- A number without its leading zeros, of which `last` was just read: from the first other digit, or from a
minus sign. One zero is kept before a point or at the end; underscores among the zeros go with them. -/
def afterZeros (last : Char) : List Char → Option (List Char)
  | [] => some [last]
  | c :: cs =>
    if c = '0' ∨ c = '_' then afterZeros c cs
    else if c.isDigit ∨ c = '-' then some (c :: cs)
    else if c = '.' then some (last :: c :: cs)
    else none

/-- A number without its leading zeros; it starts with a digit. -/
def dropZeros : List Char → Option (List Char)
  | [] => none
  | c :: cs =>
    if c = '0' then afterZeros c cs
    else if c.isDigit then some (c :: cs)
    else none

/-- A number without a point that zeros, at least one, and nothing else follow. -/
def dropFraction (cs : List Char) : List Char :=
  match cs.dropWhile (· != '.') with
  | _ :: z :: zeros => if (z :: zeros).all (· == '0') then cs.takeWhile (· != '.') else cs
  | _ => cs

def hasDoubleUnderscore : List Char → Bool
  | '_' :: '_' :: _ => true
  | _ :: cs => hasDoubleUnderscore cs
  | [] => false

/-- A number without single underscores between other characters. -/
def dropUnderscores (cs : List Char) : List Char :=
  if cs.head? = some '_' ∨ cs.getLast? = some '_' ∨ hasDoubleUnderscore cs then cs
  else cs.filter (· != '_')

inductive Misspelling where
  | notANumber
  | tooLong
  deriving DecidableEq

def maxDigits : Nat := 4300

/-- Whether a text starts with more digits than a whole number may have. They count as they stand: after a
minus sign, but after no plus sign, blank or leading zero. -/
def startsTooLong (cs : List Char) : Bool :=
  let ds := if cs.head? = some '-' then cs.tail else cs
  ds.head? != some '0' && maxDigits < (ds.takeWhile Char.isDigit).length

/-- The number that digits without a leading zero spell. -/
def ofPlainDigits? (ds : List Char) : Option Nat :=
  if ds.isEmpty || !ds.all Char.isDigit || (ds.head? == some '0' && ds.length != 1) ||
      maxDigits < ds.length then none
  else some (Decimal.ofDigits ds)

/-- The number that digits with an optional minus sign spell. -/
def ofSignedDigits? : List Char → Option Int
  | '-' :: ds => (ofPlainDigits? ds).map fun n => -(n : Int)
  | ds => (ofPlainDigits? ds).map fun n => (n : Int)

/-- The digits, with an optional minus sign, that are left when leading zeros, a fraction of zeros and
underscores between digits are dropped. -/
def plainDigits? (cs : List Char) : Option (List Char) :=
  (dropZeros cs).map fun ds => dropUnderscores (dropFraction ds)

/-- The whole number that a text spells: blanks around it, a plus sign, leading zeros, underscores between
digits and a fraction of zeros do not matter. -/
def spelled? (s : String) : Option Int := do
  let ds ← match Text.Blank.dropPadding s.toList with
    | '+' :: cs => plainDigits? cs
    | '-' :: cs => (plainDigits? cs).map ('-' :: ·)
    | cs => plainDigits? cs
  ofSignedDigits? ds

/-- Read a whole number. A text that starts with too many digits is too long, whatever follows; one that
turns out to have too many only when it is cleaned spells no number. -/
def readInteger (s : String) : Except Misspelling Int :=
  if startsTooLong s.toList then throw .tooLong
  else (spelled? s).elim (throw .notANumber) pure

example : (readInteger " +00_1_000.0 ").toOption = some 1000 := by decide
example : (readInteger "-0").toOption = some 0 := by decide
example : (readInteger "0-1").toOption = some (-1) := by decide
example : (readInteger "1.5").toOption = none := by decide
example : (readInteger "1.").toOption = none := by decide

/-! ### Cells of a row -/

/-- The size that a floating-point number must stay below to be read as a whole number. -/
def realBound : Nat := Nat.pow 2 63

/-- The whole number that a floating-point number is. -/
def readWhole (x : Float) : Except Problem Int :=
  match Shortest.classify x with
  | .zero _ => pure 0
  | .nonzero negative m q _ =>
    let r := Shortest.dyadic m q
    let n := r.num / r.den
    if r.num % r.den ≠ 0 then throw .fraction
    else if realBound ≤ n then throw .tooLarge
    else pure (if negative then -(n : Int) else n)
  | _ => throw .notFinite

def readText : Cell → Except Problem String
  | .text s => pure s
  | _ => throw .notText

def readTextOrNull : Cell → Except Problem (Option String)
  | .null => pure none
  | .text s => pure (some s)
  | _ => throw .notText

def readInt : Cell → Except Problem Int
  | .null | .other => throw .notNumber
  | .bool b => pure (if b then 1 else 0)
  | .int i => pure i
  | .real x => readWhole x
  | .text s =>
    match readInteger s with
    | .ok i => pure i
    | .error .notANumber => throw .notSpelled
    | .error .tooLong => throw .tooLarge

abbrev NamedRow := List (String × Cell)

/-- Put names to the cells of a row; what is left over on either side is left out. -/
def nameCells (names : List String) (cells : List Cell) : NamedRow := names.zip cells

/-- The cell of a field; of several columns of one name the last counts. -/
def cell? (row : NamedRow) (field : String) : Option Cell := row.reverse.lookup field

/-- Read a field, or take its default where the row leaves it out. -/
def field {α : Type} (read : Cell → Except Problem α) (default : Option α) (row : NamedRow)
    (name : String) : Checked α :=
  match cell? row name, default with
  | some c, _ =>
    match read c with
    | .ok a => .good a
    | .error p => .bad [⟨name, p⟩]
  | none, some a => .good a
  | none, none => .bad [⟨name, .missing⟩]

end SchemaSync.Rows
