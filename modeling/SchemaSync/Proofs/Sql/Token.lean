import SchemaSync.Proofs.Catalog.Edits
import SchemaSync.Proofs.Number.Numeral
import SchemaSync.Sql.Literal

/-!
# Literals are tokens

What is written for a value is one token of SQL: `NULL`, a number, or a text between single quotes in which
every other quote is doubled (`Token.Spelled`). So a literal cannot break out of the place where it stands: a
reader of tokens stops exactly at its end, whatever text follows. And since `NULL` is written for null alone,
the column that is made with a literal as its default has none only where the value is null.
-/

namespace SchemaSync

namespace Sql

/-- What one literal of a statement stands for. -/
inductive Token where
  | null
  | number (chars : List Char)
  | text (s : String)

/-- The text whose quotes are doubled in another one, if they all are. -/
def undouble? : List Char → Option (List Char)
  | [] => some []
  | '\'' :: '\'' :: cs => (undouble? cs).map ('\'' :: ·)
  | '\'' :: _ => none
  | c :: cs => (undouble? cs).map (c :: ·)

inductive Token.Spelled : Token → List Char → Prop
  | null : Spelled .null "NULL".toList
  | number {cs : List Char} (h : IsNumeral cs) : Spelled (.number cs) cs
  | text {s : String} {body : List Char} (h : undouble? body = some s.toList) :
      Spelled (.text s) ('\'' :: (body ++ ['\'']))

theorem undouble?_cons {c : Char} (h : c ≠ '\'') (cs : List Char) :
    undouble? (c :: cs) = (undouble? cs).map (c :: ·) := by
  rw [undouble?]
  · rintro cs rfl
    exact absurd rfl h
  · exact h

theorem undouble?_doubleQuotes (cs : List Char) : undouble? (doubleQuotes cs) = some cs := by
  induction cs with
  | nil => rfl
  | cons c cs ih =>
      by_cases hc : c = '\''
      · simp [doubleQuotes, hc, undouble?, ih]
      · simp [doubleQuotes, hc, undouble?_cons hc, ih]

/-! ## Reading tokens -/

open Reader

/-- A character that goes on with a word, a number or a quoted text that stands in front of it. -/
def inToken (c : Char) : Bool := c.isAlphanum || c == '_' || c == '.' || c == '\''

/-- Reads the rest of a quoted text up to its closing quote. -/
def quotedRest : Reader (List Char)
  | [] => none
  | '\'' :: '\'' :: cs => (quotedRest cs).map fun r => ('\'' :: r.1, r.2)
  | '\'' :: cs => some ([], cs)
  | c :: cs => (quotedRest cs).map fun r => (c :: r.1, r.2)

/-- Reads one literal: a quoted text, `NULL` or a number. -/
def literalToken : Reader Token :=
  (do
    word "'"
    (fun cs => .text (String.ofList cs)) <$> quotedRest) <|>
  ending inToken ((fun _ => .null) <$> word "NULL" <|> .number <$> consumed numeral)

theorem inNumber_of_inToken {c : Char} (h : inToken c = false) : inNumber c = false := by
  simp [inToken, Char.isAlphanum, Char.isAlpha] at h
  obtain ⟨⟨⟨⟨⟨hupper, hlower⟩, hdigit⟩, -⟩, hpoint⟩, -⟩ := h
  have he : c ≠ 'e' := by
    rintro rfl
    simp at hlower
  have hE : c ≠ 'E' := by
    rintro rfl
    simp at hupper
  simp [inNumber, hdigit, hpoint, he, hE]

theorem quotedRest_cons {c : Char} (h : c ≠ '\'') (cs : List Char) :
    quotedRest (c :: cs) = (quotedRest cs).map fun r => (c :: r.1, r.2) := by
  rw [quotedRest]
  · rintro cs rfl
    exact absurd rfl h
  · exact h

/-- A quoted text is read up to its closing quote, which no other quote follows. -/
theorem reads_quotedRest {body cs : List Char} (h : undouble? body = some cs) :
    quotedRest.Reads (body ++ ['\'']) cs (Ahead (· ≠ '\'')) := by
  intro rest hrest
  show quotedRest _ = _
  induction body using undouble?.induct generalizing cs with
  | case1 =>
      cases h
      cases rest with
      | nil => rfl
      | cons c rest =>
          show quotedRest ('\'' :: c :: rest) = _
          rw [quotedRest]
          rintro rest ⟨⟩
          exact hrest '\'' rfl rfl
  | case2 body ih =>
      rw [undouble?, Option.map_eq_some_iff] at h
      obtain ⟨cs, hcs, rfl⟩ := h
      rw [List.cons_append, List.cons_append, List.cons_append, List.cons_append, quotedRest, ih hcs]
      rfl
  | case3 body hbody => 
      rw [undouble?] at h
      · cases h
      · exact hbody
  | case4 c body hdouble hquote ih =>
      have hc : c ≠ '\'' := by
        rintro rfl
        exact hquote rfl
      rw [undouble?_cons hc, Option.map_eq_some_iff] at h
      obtain ⟨cs, hcs, rfl⟩ := h
      rw [List.cons_append, List.cons_append, quotedRest_cons hc, ih hcs]
      rfl

/-- A token is read off its written form, and reading stops at the end of it. -/
theorem Token.Spelled.reads {t : Token} {cs : List Char} (h : t.Spelled cs) :
    literalToken.Reads cs t (Ahead (inToken · = false)) := by
  cases h with
  | null =>
      apply Reads.orElse_right
      · rintro _ ⟨rest, -, rfl⟩
        rfl
      · have hword : (word "NULL").Reads "NULL".toList () fun _ => True := reads_word "NULL"
        exact hword.map.orElse.ending fun _ _ => trivial
  | number hnumeral =>
      -- What begins with a minus or with a digit is neither a quoted text nor a word.
      apply Reads.orElse_right
      · rintro _ ⟨rest, -, rfl⟩
        exact (refuses_word rfl (by decide)).bind _ (ahead_numeral hnumeral rest)
      · refine (Reads.orElse_right ?_ (reads_numeral hnumeral).map).ending
          fun _ h => h.mono fun _ => inNumber_of_inToken
        rintro _ ⟨rest, -, rfl⟩
        exact (refuses_word rfl (by decide)).map _ (ahead_numeral hnumeral rest)
  | @text s body hbody =>
      apply Reads.orElse
      have hrest := (reads_quotedRest hbody).map (g := fun cs => Token.text (String.ofList cs))
      rw [String.ofList_toList] at hrest
      refine (reads_word_bind (w := "'") hrest).mono fun _ h => h.mono fun c hc => ?_
      rintro rfl
      simp [inToken] at hc

/-- A text is the written form of one token only. -/
theorem Token.Spelled.unique {t u : Token} {cs : List Char} (ht : t.Spelled cs) (hu : u.Spelled cs) :
    t = u := by
  have htext := ht.reads [] ahead_nil
  rw [hu.reads [] ahead_nil] at htext
  exact (congrArg Prod.fst (Option.some.inj htext)).symm

end Sql

/-! ## The token of a value -/

namespace Value

def isExpression : Value → Bool
  | expression _ _ => true
  | _ => false

/-- A value that is written by its JSON text. -/
def isEncoded : Value → Bool
  | null | bool _ | int _ | real _ | decimal _ | text _ | expression _ _ => false
  | _ => true

open Sql in
/-- What stands for a value in a statement: `NULL` for null, a number for a truth value and for what is one, a
text for itself, and its JSON text for every other value. -/
inductive Denotes : Value → Token → Prop
  | null : Denotes .null .null
  | bool (b : Bool) : Denotes (.bool b) (.number [if b then '1' else '0'])
  | int (i : Int) : Denotes (.int i) (.number (toString i).toList)
  | real {x : Float} (h : Shortest.isFinite x = true) :
      Denotes (.real x) (.number (Shortest.text x).toList)
  | decimal {d : Decimal} (h : d.isFinite = true) : Denotes (.decimal d) (.number d.chars)
  | text (s : String) : Denotes (.text s) (.text s)
  | json {v : Value} {s : String} (h : v.isEncoded = true) (hs : v.json = .ok s) : Denotes v (.text s)

end Value

namespace Sql

variable {v : Value} {s : String}

theorem spelled_quoteText (s : String) : (Token.text s).Spelled (quoteText s).toList := by
  rw [quoteText, String.toList_ofList]
  exact .text (undouble?_doubleQuotes s.toList)

theorem literal_of_isEncoded (hv : v.isEncoded = true) : literal v = match v.json with
    | .ok s => pure (quoteText s)
    | .error k => throw (.key k) := by
  cases v with
  | null | bool | int | real | decimal | text | expression => cases hv
  | _ => exact (literal.eq_def _).trans rfl

/-- A literal is one token, which stands for its value. -/
theorem denotes_of_literal (hv : v.isExpression = false) (h : literal v = .ok s) :
    ∃ t, v.Denotes t ∧ t.Spelled s.toList := by
  cases hencoded : v.isEncoded with
  | true =>
      rw [literal_of_isEncoded hencoded] at h
      cases hjson : v.json with
      | error k =>
          rw [hjson] at h
          cases h
      | ok text =>
          rw [hjson] at h
          cases h
          exact ⟨.text text, .json hencoded hjson, spelled_quoteText text⟩
  | false =>
      cases v with
      | null => cases h; exact ⟨.null, .null, .null⟩
      | bool b => cases b <;> cases h <;> exact ⟨_, .bool _, .number (.digits false (by simp [IsDigits]))⟩
      | int i => cases h; exact ⟨_, .int i, .number (isNumeral_int i)⟩
      | real x =>
          rw [literal] at h
          split at h
          · next hfinite => cases h; exact ⟨_, .real hfinite, .number (Shortest.isNumeral_text hfinite)⟩
          · cases h
      | decimal d =>
          rw [literal] at h
          split at h
          · next hfinite =>
            cases h
            refine ⟨_, .decimal hfinite, ?_⟩
            rw [Decimal.toString, String.toList_ofList]
            exact .number (Decimal.isNumeral_chars hfinite)
          · cases h
      | text s => cases h; exact ⟨_, .text s, spelled_quoteText s⟩
      | expression => cases hv
      | _ => cases hencoded

/-- The literal `NULL` is that of null alone. -/
theorem literal_eq_null_iff (hv : v.isExpression = false) (h : literal v = .ok s) :
    s = "NULL" ↔ v = .null := by
  constructor
  · rintro rfl
    -- No other token is written `NULL`, and no other value is denoted by this one.
    obtain ⟨t, ht, hspelled⟩ := denotes_of_literal hv h
    obtain rfl := hspelled.unique .null
    cases ht
    rfl
  · rintro rfl
    cases h
    rfl

/-- **Literals stand alone**: what is written for a value other than a piece of SQL is exactly one token, which
stands for the value, and only null is written `NULL`. Whatever stands behind a semicolon after it, a reader of
tokens stops at the end of the literal. And a column that is made with the literal as its default has no default
exactly if the value is null. -/
theorem literal_standsAlone (hv : v.isExpression = false) (h : literal v = .ok s) :
    ∃ t, v.Denotes t ∧ t.Spelled s.toList ∧ (s = "NULL" ↔ v = .null) ∧
      (∀ text, literalToken.run (s.toList ++ ';' :: text) = some (t, ';' :: text)) ∧
      ∀ (c d : Catalog) (u : TableId) (spec : ColumnSpec) (id : ColumnId), c.Reachable →
        c.tables.Issued u → spec.default = some s →
        Edit.outcome (Edit.createColumn u spec) c = (.ok id, d) →
        ((d.column id).default = none ↔ v = .null) := by
  obtain ⟨t, ht, hspelled⟩ := denotes_of_literal hv h
  have hnull := literal_eq_null_iff hv h
  refine ⟨t, ht, hspelled, hnull, fun text => hspelled.reads _ (Reader.ahead_cons.mpr rfl), ?_⟩
  intro c d u spec id hc hu hspec hmade
  rw [Edit.default_of_createColumn hc.linked hu hmade, hspec, ← hnull]
  simp

def emptyNotes : List Edit.Command := [.createSnapshot, .createTable ⟨0⟩ "notes"]

/-- A column whose default begins and ends with a quote and has quotes next to each other. -/
def quotedDefault : ColumnSpec := ⟨"body", "TEXT", false, some "'it''s'''", false, false⟩

theorem literal_standsAlone_quoted :
    literal (.text "it's'") = .ok "'it''s'''" ∧
      (∀ text, literalToken.run ("'it''s'''".toList ++ ';' :: text) = some (.text "it's'", ';' :: text)) ∧
      ∃ d, Edit.outcome (Edit.createColumn ⟨0⟩ quotedDefault)
          (Edit.Command.run .empty emptyNotes) = (.ok ⟨0⟩, d) ∧
        (d.column ⟨0⟩).default ≠ none := by
  have hliteral : literal (.text "it's'") = .ok "'it''s'''" := by rfl
  obtain ⟨t, ht, -, -, hreads, hdefault⟩ := literal_standsAlone rfl hliteral
  cases ht with
  | text =>
      refine ⟨hliteral, hreads, _, rfl, ?_⟩
      have hissued : Edit.Command.AllIssued .empty emptyNotes := by decide
      rw [Ne, hdefault _ _ ⟨0⟩ quotedDefault ⟨0⟩ (Catalog.Reachable.empty.run hissued) (by decide) rfl rfl]
      rintro ⟨⟩
  | json hencoded => cases hencoded

end Sql
end SchemaSync
