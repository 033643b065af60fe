import SchemaSync.Number.Shortest
import SchemaSync.Text.Quoted
import SchemaSync.Value.Calendar

/-!
# Values

The values that a declaration can give as a default or as the parameter of an expression, and how a
message shows them.
-/

namespace SchemaSync

/-- A value that may stand as a default or as a parameter. -/
inductive Value where
  | null
  | bool (b : Bool)
  | int (i : Int)
  | real (x : Float)
  | decimal (d : Decimal)
  | text (s : String)
  | bytes (bs : List UInt8)
  | list (items : List Value)
  | tuple (items : List Value)
  /-- Entries in order; `Value.addEntry` makes one without repeated keys. -/
  | dict (entries : List (Value × Value))
  | date (d : Date)
  | time (t : TimeOfDay)
  | moment (d : Date) (t : TimeOfDay)
  /-- A universally unique identifier by its 32 lower-case hexadecimal digits. -/
  | uuid (digits : List Char)
  | member (enumeration name : String) (payload : Value)
  /-- A piece of SQL with a `?` for each parameter. -/
  | expression (sql : String) (params : List Value)
  /-- Something that is known by its texts alone: the unambiguous and the plain one. -/
  | described (shown plain : String)

instance : Inhabited Value := ⟨.null⟩

namespace Value

/-! ### Showing values -/

def uuidText (ds : List Char) : String :=
  String.ofList (ds.take 8 ++ '-' :: (ds.drop 8).take 4 ++ '-' :: (ds.drop 12).take 4 ++
    '-' :: (ds.drop 16).take 4 ++ '-' :: ds.drop 20)

/-- Arguments of a time of day in its shown form: trailing zero seconds and microseconds are left
out. -/
def timeArguments (t : TimeOfDay) : List Nat :=
  [t.hour, t.minute] ++
    (if t.microsecond ≠ 0 then [t.second, t.microsecond]
      else if t.second ≠ 0 then [t.second] else [])

/-- The shown form of an offset, after its arguments. -/
def zoneText (offset : Option Int) : String :=
  match offset with
  | none => ""
  | some offset =>
    ", tzinfo=" ++ (if offset = 0 then "datetime.timezone.utc"
      else "datetime.timezone(" ++ Calendar.shownDuration offset ++ ")")

def commaNumbers (ns : List Nat) : String := ", ".intercalate (ns.map Nat.repr)

/-- Round brackets around shown forms; a single one is followed by a comma. -/
def shownTuple : List String → String
  | [s] => "(" ++ s ++ ",)"
  | ss => "(" ++ ", ".intercalate ss ++ ")"

mutual

def shown : Value → String
  | null => "None"
  | bool b => if b then "True" else "False"
  | int i => toString i
  | real x => Shortest.text x
  | decimal d => "Decimal('" ++ d.toString ++ "')"
  | text s => Text.Quoted.quote s
  | bytes bs => Text.Quoted.quoteBytes bs
  | list items => "[" ++ ", ".intercalate (shownList items) ++ "]"
  | tuple items => shownTuple (shownList items)
  | dict entries => "\x7b" ++ ", ".intercalate (shownEntries entries) ++ "\x7d"
  | date d => "datetime.date(" ++ commaNumbers [d.year, d.month, d.day] ++ ")"
  | time t => "datetime.time(" ++ commaNumbers (timeArguments t) ++ zoneText t.offset ++ ")"
  | moment d t => "datetime.datetime(" ++
      commaNumbers ([d.year, d.month, d.day] ++ timeArguments t) ++ zoneText t.offset ++ ")"
  | uuid ds => "UUID('" ++ uuidText ds ++ "')"
  | member enumeration name payload =>
    "<" ++ enumeration ++ "." ++ name ++ ": " ++ shown payload ++ ">"
  | expression sql params => "SqlExpression(sql=" ++ Text.Quoted.quote sql ++ ", params=" ++
      shownTuple (shownList params) ++ ")"
  | described shown _ => shown

def shownList : List Value → List String
  | [] => []
  | v :: vs => shown v :: shownList vs

def shownEntries : List (Value × Value) → List String
  | [] => []
  | (k, v) :: es => (shown k ++ ": " ++ shown v) :: shownEntries es

end

/-- The plain text of a value: a text is itself, dates, times, identifiers and members have a readable
form, and every other value is shown. -/
def display : Value → String
  | text s => s
  | decimal d => d.toString
  | date d => String.ofList d.chars
  | time t => String.ofList t.chars
  | moment d t => String.ofList (d.chars ++ ' ' :: t.chars)
  | uuid ds => uuidText ds
  | member enumeration name _ => enumeration ++ "." ++ name
  | described _ plain => plain
  | v => shown v

/-- The name of a value's class, for messages that refuse the value. -/
def className : Value → String
  | null => "NoneType"
  | bool _ => "bool"
  | int _ => "int"
  | real _ => "float"
  | decimal _ => "decimal.Decimal"
  | text _ => "str"
  | bytes _ => "bytes"
  | list _ => "list"
  | tuple _ => "tuple"
  | dict _ => "dict"
  | date _ => "datetime.date"
  | time _ => "datetime.time"
  | moment .. => "datetime.datetime"
  | uuid _ => "UUID"
  | member enumeration .. => enumeration
  | expression .. => "SqlExpression"
  | described .. => "object"

end Value
end SchemaSync
