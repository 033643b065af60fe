/-!
# Identifiers

Names of tables, columns and indexes are written between grave accents, and a grave accent inside a
name is written twice, so any text can be a name. The main statement says that a written name can be
read back from the front of a text, whatever follows that does not start with the quote.
-/

namespace SchemaSync.Sql.Identifier

def tick : Char := '\x60'

/-- The characters of a name with every quote doubled. -/
def double : List Char → List Char
  | [] => []
  | c :: cs => if c = tick then tick :: tick :: double cs else c :: double cs

def quoteChars (name : List Char) : List Char := tick :: double name ++ [tick]

def quote (name : String) : String := String.ofList (quoteChars name.toList)

/-- Names in written form with commas between them. -/
def quoteList (names : List String) : String := ",".intercalate (names.map quote)

def readBody? : List Char → Option (List Char × List Char)
  | [] => none
  | [c] => if c = tick then some ([], []) else none
  | c :: d :: rest =>
    if c = tick then
      if d = tick then (readBody? rest).map fun r => (tick :: r.1, r.2) else some ([], d :: rest)
    else (readBody? (d :: rest)).map fun r => (c :: r.1, r.2)

/-- Read a written name in front of a text. -/
def read? : List Char → Option (List Char × List Char)
  | [] => none
  | c :: rest => if c = tick then readBody? rest else none

theorem readBody?_double (name rest : List Char) (h : rest.head? ≠ some tick) :
    readBody? (double name ++ tick :: rest) = some (name, rest) := by
  induction name with
  | nil =>
    cases rest with
    | nil => simp [double, readBody?]
    | cons d rest =>
      have : d ≠ tick := by simpa using h
      simp [double, readBody?, this]
  | cons c name ih =>
    by_cases hc : c = tick
    · simp [double, hc, readBody?, ih]
    · obtain ⟨d, tail, e⟩ : ∃ d tail, double name ++ tick :: rest = d :: tail := by
        cases hd : double name with
        | nil => exact ⟨_, _, rfl⟩
        | cons d tail => exact ⟨_, _, rfl⟩
      rw [double, if_neg hc, List.cons_append, e, readBody?, if_neg hc, ← e, ih]
      rfl

/-- A written name is read back, and reading stops at its closing quote. -/
theorem read?_quoteChars (name rest : List Char) (h : rest.head? ≠ some tick) :
    read? (quoteChars name ++ rest) = some (name, rest) := by
  simpa [read?, quoteChars] using readBody?_double name rest h

end SchemaSync.Sql.Identifier
