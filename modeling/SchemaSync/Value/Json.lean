import SchemaSync.Value.Basic

/-!
# JSON text of a value

Lists and tuples become arrays, dictionaries objects whose keys may be texts, numbers, truth values or
null, and whatever JSON has no form for becomes the string of its plain text. Items are separated by a
comma and a space, a key from its value by a colon and a space. The text is printable ASCII: every other
character is escaped by its UTF-16 units.
-/

namespace SchemaSync.Value

/-- The units of a character in UTF-16. -/
def units16 (c : Char) : List Nat :=
  if c.toNat < 0x10000 then [c.toNat]
  else [0xd800 + (c.toNat - 0x10000) / 0x400, 0xdc00 + (c.toNat - 0x10000) % 0x400]

def jsonEscape (c : Char) : List Char :=
  if c = '"' then ['\\', '"']
  else if c = '\\' then ['\\', '\\']
  else if c = '\n' then ['\\', 'n']
  else if c = '\r' then ['\\', 'r']
  else if c = '\t' then ['\\', 't']
  else if c = '\x08' then ['\\', 'b']
  else if c = '\x0c' then ['\\', 'f']
  else if 0x20 ≤ c.toNat ∧ c.toNat < 0x7f then [c]
  else (units16 c).flatMap fun u => '\\' :: 'u' :: Text.Hex.digits 4 u

def jsonString (s : String) : String :=
  String.ofList ('"' :: s.toList.flatMap jsonEscape ++ ['"'])

def jsonReal (x : Float) : String :=
  match Shortest.classify x with
  | .notANumber => "NaN"
  | .infinite negative => if negative then "-Infinity" else "Infinity"
  | _ => Shortest.text x

/-- The text of an object key, for the values that can be one. -/
def jsonKey? : Value → Option String
  | text s => some s
  | int i => some (toString i)
  | real x => some (jsonReal x)
  | bool b => some (if b then "true" else "false")
  | null => some "null"
  | _ => none

mutual

/-- The JSON text of a value. It fails with the first value that cannot be a key. -/
def json : Value → Except Value String
  | null => pure "null"
  | bool b => pure (if b then "true" else "false")
  | int i => pure (toString i)
  | real x => pure (jsonReal x)
  | text s => pure (jsonString s)
  | list items => do pure ("[" ++ ", ".intercalate (← jsonItems items) ++ "]")
  | tuple items => do pure ("[" ++ ", ".intercalate (← jsonItems items) ++ "]")
  | dict entries => do pure ("\x7b" ++ ", ".intercalate (← jsonEntries entries) ++ "\x7d")
  | v => pure (jsonString v.display)

def jsonItems : List Value → Except Value (List String)
  | [] => pure []
  | v :: vs => do
    let first ← json v
    pure (first :: (← jsonItems vs))

def jsonEntries : List (Value × Value) → Except Value (List String)
  | [] => pure []
  | (k, v) :: es => do
    match jsonKey? k with
    | none => throw k
    | some key =>
      let value ← json v
      pure ((jsonString key ++ ": " ++ value) :: (← jsonEntries es))

end

end SchemaSync.Value
