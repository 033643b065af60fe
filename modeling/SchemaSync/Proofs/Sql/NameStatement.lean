import SchemaSync.Proofs.Text.Reader
import SchemaSync.Sql.Statement

/-!
# Statements made of names are read back

A statement that is written from names alone shows of which kind it is and what its names are, whatever
characters these are made of: quotes, separators or whole keywords of other statements. `nameStatement` reads
all of these statements, so no two of them have the same text.

`NameStatement.segments` says where in the text each name stands. A name is read off the text at this place up
to its own closing quote and no further.
-/

namespace SchemaSync.Sql

open Reader
open Identifier (quote quoteList tick)

/-! ## Reading names -/

def name : Reader String := fun cs => (Identifier.read? cs).map fun r => (String.ofList r.1, r.2)

def names : Reader (List String) := sepBy "," name

/-- A name is read up to its closing quote, which no other quote follows. -/
theorem reads_name (n : String) : name.Reads (quote n).toList n (Ahead (· ≠ tick)) := by
  intro rest hrest
  have hhead : rest.head? ≠ some tick := fun h => hrest tick h rfl
  show (Identifier.read? _).map _ = _
  rw [quote, String.toList_ofList, Identifier.read?_quoteChars _ _ hhead]
  simp

theorem refuses_name : name.Refuses (Ahead (· ≠ tick)) := by
  intro rest hrest
  cases rest with
  | nil => rfl
  | cons c cs =>
      have hread : Identifier.read? (c :: cs) = none := if_neg (ahead_cons.mp hrest)
      show (Identifier.read? _).map _ = _
      rw [hread]
      rfl

theorem reads_names (ns : List String) :
    names.Reads (quoteList ns).toList ns (Ahead fun c => c ≠ tick ∧ c ≠ ',') := by
  refine Reads.sepBy (fun n _ => reads_name n) (by decide) (fun rest => ahead_word rfl (by decide) rest)
    (fun _ h => h.mono fun _ hc => hc.1) (fun _ h => refuses_name _ (h.mono fun _ hc => hc.1)) ?_
  rintro _ h ⟨rest, rfl⟩
  exact (h ',' rfl).2 rfl

/-! ## Statements -/

/-- A statement that is written from names alone. -/
inductive NameStatement where
  | dropTable (table : String)
  | dropColumn (table column : String)
  | copyRows (source target : String) (columns : List String)
  | renameTable (old new : String)
  | createIndex (table index : String) (columns : List String)
  | dropIndex (index : String)
  deriving DecidableEq

def NameStatement.text : NameStatement → String
  | dropTable table => Sql.dropTable table
  | dropColumn table column => Sql.dropColumn table column
  | copyRows source target columns => Sql.copyRows source target columns
  | renameTable old new => Sql.renameTable old new
  | createIndex table index columns => Sql.createIndex table index columns
  | dropIndex index => Sql.dropIndex index

/-- What stands behind the name of a table in a statement that changes the table. -/
def tableChanges (table : String) : List (String × Reader NameStatement) :=
  [(" DROP COLUMN ", .dropColumn table <$> name), (" RENAME TO ", .renameTable table <$> name)]

/-- What stands behind the first word of a statement. -/
def nameStatements : List (String × Reader NameStatement) := [
  ("DROP TABLE ", .dropTable <$> name),
  ("DROP INDEX ", .dropIndex <$> name),
  ("ALTER TABLE ", do
    let table ← name
    branch (tableChanges table)),
  ("INSERT INTO ", do
    let target ← name
    word " ("
    let columns ← names
    word ") SELECT "
    let _ ← names
    word " FROM "
    (.copyRows · target columns) <$> name),
  ("CREATE INDEX IF NOT EXISTS ", do
    let index ← name
    word " ON "
    let table ← name
    word " ("
    let columns ← names
    (fun _ => .createIndex table index columns) <$> word ")")]

theorem apart_nameStatements : (nameStatements.map Prod.fst).Pairwise Apart := by decide

theorem apart_tableChanges (table : String) : ((tableChanges table).map Prod.fst).Pairwise Apart := by
  simp only [tableChanges, List.map_cons, List.map_nil]
  decide

/-- Every statement is read back. -/
theorem reads_nameStatement (a : NameStatement) :
    (branch nameStatements).Reads a.text.toList a (Ahead (· ≠ tick)) := by
  cases a with
  | dropTable table =>
      unfold NameStatement.text dropTable
      rw [String.toList_append]
      exact reads_branch apart_nameStatements (.head _) (reads_name table).map
  | dropIndex index =>
      unfold NameStatement.text dropIndex
      rw [String.toList_append]
      exact reads_branch apart_nameStatements (.tail _ (.head _)) (reads_name index).map
  | dropColumn table column =>
      unfold NameStatement.text dropColumn
      simp only [String.toList_append, List.append_assoc]
      refine reads_branch apart_nameStatements (.tail _ (.tail _ (.head _))) ?_
      refine (reads_name table).bind_word rfl (by decide) ?_
      exact reads_branch (apart_tableChanges table) (.head _) (reads_name column).map
  | renameTable old new =>
      unfold NameStatement.text renameTable
      simp only [String.toList_append, List.append_assoc]
      refine reads_branch apart_nameStatements (.tail _ (.tail _ (.head _))) ?_
      refine (reads_name old).bind_word rfl (by decide) ?_
      exact reads_branch (apart_tableChanges old) (.tail _ (.head _)) (reads_name new).map
  | copyRows source target columns =>
      unfold NameStatement.text copyRows
      simp only [String.toList_append, List.append_assoc]
      refine reads_branch apart_nameStatements (.tail _ (.tail _ (.tail _ (.head _)))) ?_
      refine (reads_name target).bind_word rfl (by decide) (reads_word_bind ?_)
      refine (reads_names columns).bind_word rfl (by decide) (reads_word_bind ?_)
      refine (reads_names columns).bind_word rfl (by decide) (reads_word_bind ?_)
      exact (reads_name source).map
  | createIndex table index columns =>
      unfold NameStatement.text createIndex
      simp only [String.toList_append, List.append_assoc]
      refine reads_branch apart_nameStatements (.tail _ (.tail _ (.tail _ (.tail _ (.head _))))) ?_
      refine (reads_name index).bind_word rfl (by decide) (reads_word_bind ?_)
      refine (reads_name table).bind_word rfl (by decide) (reads_word_bind ?_)
      exact (reads_names columns).bind_last rfl (by decide) (reads_word ")").map

/-! ## Where names stand -/

/-- A part of a statement: a fixed word or a name. -/
inductive Segment where
  | word (w : String)
  | name (n : String)

def Segment.text : Segment → String
  | word w => w
  | name n => quote n

def spell (segments : List Segment) : List Char := segments.flatMap fun s => s.text.toList

@[simp] theorem spell_nil : spell [] = [] := rfl

@[simp] theorem spell_cons (s : Segment) (segments : List Segment) :
    spell (s :: segments) = s.text.toList ++ spell segments := List.flatMap_cons

@[simp] theorem spell_append (front back : List Segment) : spell (front ++ back) = spell front ++ spell back :=
  List.flatMap_append

def nameSegments (ns : List String) : List Segment := (ns.map .name).intersperse (.word ",")

def NameStatement.segments : NameStatement → List Segment
  | dropTable table => [.word "DROP TABLE ", .name table]
  | dropColumn table column => [.word "ALTER TABLE ", .name table, .word " DROP COLUMN ", .name column]
  | copyRows source target columns =>
    .word "INSERT INTO " :: .name target :: .word " (" :: (nameSegments columns ++
      .word ") SELECT " :: (nameSegments columns ++ [.word " FROM ", .name source]))
  | renameTable old new => [.word "ALTER TABLE ", .name old, .word " RENAME TO ", .name new]
  | createIndex table index columns =>
    .word "CREATE INDEX IF NOT EXISTS " :: .name index :: .word " ON " :: .name table :: .word " (" ::
      (nameSegments columns ++ [.word ")"])
  | dropIndex index => [.word "DROP INDEX ", .name index]

theorem spell_nameSegments (ns : List String) : spell (nameSegments ns) = (quoteList ns).toList := by
  induction ns with
  | nil => simp [nameSegments, quoteList]
  | cons n ns ih =>
      cases ns with
      | nil => simp [nameSegments, quoteList, Segment.text]
      | cons m ns =>
          have hparts : nameSegments (n :: m :: ns) = .name n :: .word "," :: nameSegments (m :: ns) := rfl
          have hlist : quoteList (n :: m :: ns) = quote n ++ "," ++ quoteList (m :: ns) :=
            String.intercalate_cons_cons
          rw [hparts, spell_cons, spell_cons, ih, hlist, String.toList_append, String.toList_append,
            List.append_assoc]
          rfl

/-- The parts of a statement make up its text. -/
theorem spell_segments (a : NameStatement) : spell a.segments = a.text.toList := by
  unfold NameStatement.text
  cases a with
  | dropTable => simp [NameStatement.segments, Segment.text, dropTable]
  | dropIndex => simp [NameStatement.segments, Segment.text, dropIndex]
  | dropColumn => simp [NameStatement.segments, Segment.text, dropColumn]
  | renameTable => simp [NameStatement.segments, Segment.text, renameTable]
  | copyRows =>
      unfold copyRows
      simp [NameStatement.segments, Segment.text, spell_nameSegments]
  | createIndex =>
      unfold createIndex
      simp [NameStatement.segments, Segment.text, spell_nameSegments]

/-- No quote stands behind a name. -/
def Separated : List Segment → Prop
  | [] => True
  | .word _ :: segments => Separated segments
  | .name _ :: segments => Ahead (· ≠ tick) (spell segments) ∧ Separated segments

/-- Between parts that no quote follows, a name is read up to its own closing quote. -/
theorem Separated.read?_eq {front back : List Segment} {n : String}
    (h : Separated (front ++ .name n :: back)) :
    Identifier.read? (spell (.name n :: back)) = some (n.toList, spell back) := by
  induction front with
  | nil =>
      have hhead : (spell back).head? ≠ some tick := fun hc => h.1 tick hc rfl
      rw [spell_cons, Segment.text, quote, String.toList_ofList]
      exact Identifier.read?_quoteChars _ _ hhead
  | cons s front ih =>
      cases s with
      | word w => exact ih h
      | name m => exact ih h.2

theorem separated_nameSegments {ns : List String} {segments : List Segment} (h : Separated segments)
    (hahead : Ahead (· ≠ tick) (spell segments)) : Separated (nameSegments ns ++ segments) := by
  induction ns with
  | nil => exact h
  | cons n ns ih =>
      cases ns with
      | nil => exact ⟨hahead, h⟩
      | cons m ns => exact ⟨ahead_word (w := ",") rfl (by decide) _, ih⟩

theorem separated_segments (a : NameStatement) : Separated a.segments := by
  cases a with
  | dropTable | dropIndex => exact ⟨ahead_nil, trivial⟩
  | dropColumn => exact ⟨ahead_word (w := " DROP COLUMN ") rfl (by decide) _, ahead_nil, trivial⟩
  | renameTable => exact ⟨ahead_word (w := " RENAME TO ") rfl (by decide) _, ahead_nil, trivial⟩
  | copyRows source target columns =>
      have hsource : Separated [.word " FROM ", .name source] := ⟨ahead_nil, trivial⟩
      have hselected : Separated
          (.word ") SELECT " :: (nameSegments columns ++ [.word " FROM ", .name source])) :=
        separated_nameSegments hsource (ahead_word (w := " FROM ") rfl (by decide) _)
      exact ⟨ahead_word (w := " (") rfl (by decide) _,
        separated_nameSegments hselected (ahead_word (w := ") SELECT ") rfl (by decide) _)⟩
  | createIndex table index columns =>
      have hclosed : Separated [.word ")"] := trivial
      exact ⟨ahead_word (w := " ON ") rfl (by decide) _, ahead_word (w := " (") rfl (by decide) _,
        separated_nameSegments hclosed (ahead_word (w := ")") rfl (by decide) _)⟩

/-- **Statements made of names are injective**: two of them have the same text only if they are the same, since
each is read back from its text. And where a name stands in the text, it is read up to its own closing quote. -/
theorem nameStatement_told_by_text (a b : NameStatement) :
    (a.text = b.text ↔ a = b) ∧ (branch nameStatements).whole a.text = some a ∧
      spell a.segments = a.text.toList ∧
      ∀ front n back, a.segments = front ++ .name n :: back →
        Identifier.read? (spell (.name n :: back)) = some (n.toList, spell back) := by
  have hread : ∀ a : NameStatement, (branch nameStatements).whole a.text = some a :=
    fun a => (reads_nameStatement a).whole ahead_nil
  refine ⟨⟨fun h => ?_, fun h => h ▸ rfl⟩, hread a, spell_segments a, fun front n back hsegments => ?_⟩
  · have hboth := hread a
    rw [h, hread b] at hboth
    exact (Option.some.inj hboth).symm
  · have hseparated := separated_segments a
    rw [hsegments] at hseparated
    exact hseparated.read?_eq

end SchemaSync.Sql
