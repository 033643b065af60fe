import SchemaSync.Text.Cut
import SchemaSync.Value.Json

/-!
# SQL literals

How a value is written in a `DEFAULT` clause. Null is `NULL`, truth values are `1` and `0`, numbers are
numbers, a text stands between single quotes with every inner one doubled, an expression is its own SQL
with each `?` replaced by the literal of a parameter, and every other value is its JSON text as a quoted
text. Numbers that are not finite have no literal.
-/

namespace SchemaSync.Sql

inductive LiteralError where
  | notFinite (value : Value)
  /-- An expression with another number of parameters than placeholders. -/
  | parameterCount (sql : String) (placeholders given : Nat)
  /-- A dictionary key that JSON does not admit. -/
  | key (value : Value)

/-- How many bytes of a class name a message shows. -/
def classNameLimit : Nat := 100

def LiteralError.message : LiteralError → String
  | notFinite v => "SQLite has no literal for " ++ v.shown
  | parameterCount sql placeholders given =>
    "Expression " ++ Text.Quoted.quote sql ++ " expects " ++ placeholders.repr ++
      " parameters, got " ++ given.repr
  | key v => "keys must be str, int, float, bool or None, not " ++
      Text.Cut.text classNameLimit v.className

def doubleQuotes : List Char → List Char
  | [] => []
  | c :: cs => if c = '\'' then '\'' :: '\'' :: doubleQuotes cs else c :: doubleQuotes cs

def quoteTextChars (cs : List Char) : List Char := '\'' :: doubleQuotes cs ++ ['\'']

def quoteText (s : String) : String := String.ofList (quoteTextChars s.toList)

/-- The pieces of a template around its `?` placeholders: one more piece than placeholders. -/
def pieces : List Char → List Char × List (List Char)
  | [] => ([], [])
  | c :: cs =>
    let (first, rest) := pieces cs
    if c = '?' then ([], first :: rest) else (c :: first, rest)

def fill (first : List Char) : List (List Char) → List String → List Char
  | piece :: rest, f :: fs => first ++ f.toList ++ fill piece rest fs
  | _, _ => first

mutual

def literal : Value → Except LiteralError String
  | .null => pure "NULL"
  | .expression sql params => do
    let (first, rest) := pieces sql.toList
    if rest.length = params.length then
      pure (String.ofList (fill first rest (← literals params)))
    else throw (.parameterCount sql rest.length params.length)
  | .text s => pure (quoteText s)
  | .bool b => pure (if b then "1" else "0")
  | .int i => pure (toString i)
  | .real x => if Shortest.isFinite x then pure (Shortest.text x) else throw (.notFinite (.real x))
  | .decimal d => if d.isFinite then pure d.toString else throw (.notFinite (.decimal d))
  | v =>
    match v.json with
    | .ok s => pure (quoteText s)
    | .error k => throw (.key k)

def literals : List Value → Except LiteralError (List String)
  | [] => pure []
  | v :: vs => do
    let first ← literal v
    pure (first :: (← literals vs))

end

/-- A template has one piece more than it has placeholders. -/
theorem length_pieces (cs : List Char) : (pieces cs).2.length = cs.count '?' := by
  induction cs with
  | nil => rfl
  | cons c cs ih =>
    by_cases h : c = '?'
    · simp [pieces, h, ih]
    · simp [pieces, h, ih]

end SchemaSync.Sql
