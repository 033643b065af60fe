import SchemaSync.Proofs.Rows.RoundTrip
import SchemaSync.Proofs.Run.Exchanges
import SchemaSync.Push

/-!
# Reading a database back

A database that holds a snapshot is read by three queries on its catalog. If the queries are answered with
the rows of a report, reading succeeds, does nothing but make and close three cursors and ask the queries,
so logs no warning, and gives the snapshot back; a second push to the same schema has nothing to do. The
rows go through cells on their way, and shuffled groups are put together and sorted; what happens to them
then is the matter of `Rows.outcome_assemble`.
-/

namespace SchemaSync

open Rows

variable {σ : Type} {conn : Connection σ} {a : Answers}

/-- The answer to a query, as cells under the names of the columns. -/
def Rows.Answers.answer (a : Answers) : Query → Answer
  | .columns => ⟨Query.columns.columnNames, a.columns.map ColumnRow.cells⟩
  | .foreignKeys => ⟨Query.foreignKeys.columnNames, a.foreignKeys.map ForeignKeyRow.cells⟩
  | .indexes => ⟨Query.indexes.columnNames, a.indexes.map IndexRow.cells⟩

/-- A connection that makes and closes cursors whenever it is asked to, and answers the catalog queries. -/
structure Connection.Serves (conn : Connection σ) (a : Answers) : Prop where
  cursor : ∀ v, ∃ x r, conn.call .cursor v = (.ok x, r)
  query : ∀ q v, ∃ r, conn.call (.query q) v = (.ok (a.answer q), r)
  cursorClose : ∀ v, ∃ x r, conn.call .cursorClose v = (.ok x, r)

namespace Reading

def callsOf (q : Query) : List Call := [.cursor, .query q, .cursorClose]

/-- A query is asked and its rows are read. -/
theorem run_ask {α : Type} (hconn : conn.Serves a) {q : Query} {read : NamedRow → Checked α}
    {rows : List α} (hrows : readRows read (a.answer q).names (a.answer q).rows = .ok rows)
    (w : World σ) :
    ∃ v, (ask conn q read).run.run w = (.ok rows, ⟨v, w.trace ++ (callsOf q).map .called⟩) := by
  obtain ⟨made, v, hcursor⟩ := hconn.cursor w.state
  obtain ⟨v', hquery⟩ := hconn.query q v
  obtain ⟨closed, v'', hclose⟩ := hconn.cursorClose v'
  have hbody : (do
      let answer ← Run.call conn (.query q)
      Run.ofExcept .row (readRows read answer.names answer.rows) : Run σ (List α)).run.run
        ⟨v, w.trace ++ [.called .cursor]⟩ =
      (.ok rows, ⟨v', w.trace ++ [.called .cursor] ++ [.called (.query q)]⟩) := by
    rw [Run.run_bind, Run.run_call, hquery]
    show (Run.ofExcept SyncError.row (readRows read (a.answer q).names (a.answer q).rows) :
      Run σ (List α)).run.run _ = _
    rw [hrows]
    rfl
  have hclosing : (do let _ ← Run.call conn .cursorClose : Run σ Unit).run.run
        ⟨v', w.trace ++ [.called .cursor] ++ [.called (.query q)]⟩ =
      (.ok (), ⟨v'', w.trace ++ (callsOf q).map .called⟩) := by
    rw [Run.run_bind, Run.run_call, hclose]
    show (pure () : Run σ Unit).run.run _ = _
    simp only [callsOf, List.map_cons, List.map_nil, List.append_assoc, List.cons_append, List.nil_append]
    rfl
  refine ⟨v'', ?_⟩
  unfold ask Run.withCursor
  rw [Run.run_bind, Run.run_call, hcursor]
  show (Run.always _ _).run.run _ = _
  rw [Run.run_always, hbody, hclosing]

/-- All three queries are asked. -/
theorem run_answers (hconn : conn.Serves a) (w : World σ) :
    ∃ v, (answers conn).run.run w =
      (.ok a, ⟨v, w.trace ++ (Query.all.flatMap callsOf).map .called⟩) := by
  obtain ⟨v, hcolumns⟩ := run_ask (q := .columns) hconn (readRows_map ColumnRow.read_cells a.columns) w
  obtain ⟨v', hkeys⟩ := run_ask (q := .foreignKeys) hconn
    (readRows_map ForeignKeyRow.read_cells a.foreignKeys) ⟨v, w.trace ++ (callsOf .columns).map .called⟩
  obtain ⟨v'', hindexes⟩ := run_ask (q := .indexes) hconn (readRows_map IndexRow.read_cells a.indexes)
    ⟨v', w.trace ++ (callsOf .columns).map .called ++ (callsOf .foreignKeys).map .called⟩
  refine ⟨v'', ?_⟩
  unfold answers
  rw [Run.run_bind, hcolumns]
  show (ask conn .foreignKeys ForeignKeyRow.read >>= _).run.run _ = _
  rw [Run.run_bind, hkeys]
  show (ask conn .indexes IndexRow.read >>= _).run.run _ = _
  rw [Run.run_bind, hindexes]
  show (Except.ok a, _) = _
  rw [List.append_assoc, List.append_assoc]
  rfl

def warningEvent (warning : Rows.Warning) : Event := .logged ⟨.warning, .reading, warning.message⟩

theorem run_logWarnings (warnings : List Rows.Warning) (w : World σ) :
    (logWarnings warnings).run.run w = (.ok (), ⟨w.state, w.trace ++ warnings.map warningEvent⟩) :=
  Run.run_forM_record warningEvent warnings w

/-- A schema is read exactly if the queries are answered and the rows can be assembled; what is left out is
logged. -/
theorem schema_eq_ok_iff {start : Option String} {w w' : World σ} {c : Catalog} {id : SnapshotId} :
    (schema conn start).run.run w = (.ok (c, id), w') ↔
      ∃ a v d, (answers conn).run.run w = (.ok a, v) ∧ outcomeOf (assemble start a) ⟨.empty, []⟩ = (.ok id, d) ∧
        d.catalog = c ∧ w' = ⟨v.state, v.trace ++ d.warnings.map warningEvent⟩ := by
  have hrest (a : Answers) (v : World σ) : (do
      logWarnings (outcomeOf (assemble start a) ⟨.empty, []⟩).2.warnings
      let s ← Run.ofExcept .edit (outcomeOf (assemble start a) ⟨.empty, []⟩).1
      pure ((outcomeOf (assemble start a) ⟨.empty, []⟩).2.catalog, s) : Run σ (Catalog × SnapshotId)).run.run v =
        (.ok (c, id), w') ↔ ∃ d, outcomeOf (assemble start a) ⟨.empty, []⟩ = (.ok id, d) ∧ d.catalog = c ∧
          w' = ⟨v.state, v.trace ++ d.warnings.map warningEvent⟩ := by
    rw [Run.run_bind, run_logWarnings]
    rcases outcomeOf (assemble start a) ⟨.empty, []⟩ with ⟨e | s, d⟩
    · constructor
      · rintro ⟨⟩
      · rintro ⟨_, ⟨⟩, -⟩
    · constructor
      · rintro ⟨⟩
        exact ⟨d, rfl, rfl, rfl⟩
      · rintro ⟨_, ⟨⟩, rfl, rfl⟩
        rfl
  refine outcomeOf_bind_eq_ok_iff.trans (exists_congr fun a => exists_congr fun v => ?_)
  exact (and_congr_right fun _ => hrest a v).trans exists_and_left.symm

variable {s : Snapshot} {r : Rows.Report}

/-- **A snapshot read back**: on a connection that answers the catalog queries with the rows of a report of
a verified snapshot, reading succeeds and does nothing but ask the queries, so it logs no warning. What it
reads is the snapshot, with the constraints and indexes of a table in the order of the report, and without
columns that count up; nothing is left to be done between the two. -/
theorem schema_readBack (h : s.Reachable) (hv : s.verify = .ok ()) (hplain : s.Reportable)
    (hr : r.Lists s) (ha : a.Report s r) (hconn : conn.Serves a) (suffixes : Nat → String)
    (w : World σ) :
    ∃ c id w', (schema conn none).run.run w = (.ok (c, id), w') ∧
      w'.trace = w.trace ++ (Query.all.flatMap callsOf).map .called ∧
      (c.snapshot id).ReadFrom s r ∧
      ∃ p, Snapshot.diff suffixes (c.snapshot id) s false = .ok p ∧ p.operations = [] := by
  obtain ⟨c, id, hassembled, hc, hread⟩ := outcome_assemble h hv hplain hr ha
  obtain ⟨v, hanswers⟩ := run_answers hconn w
  refine ⟨c, id, ⟨v, _⟩, ?_, rfl, hread, hread.diff_eq hc hr h hv hplain.uniqueIndexes suffixes⟩
  unfold schema
  rw [Run.run_bind, hanswers]
  show (do
    logWarnings ((assemble none a).outcome ⟨.empty, []⟩).2.warnings
    let s ← Run.ofExcept .edit ((assemble none a).outcome ⟨.empty, []⟩).1
    pure (((assemble none a).outcome ⟨.empty, []⟩).2.catalog, s) : Run σ (Catalog × SnapshotId)).run.run
      _ = _
  rw [hassembled]
  rfl

/-- A connection that gives the answers to the catalog queries and has no rows for anything else. -/
def answering (a : Answers) : Connection Unit where
  scripted := true
  call c v := (.ok (match c with
    | .query q => a.answer q
    | _ => .empty), v)

theorem serves_answering (a : Answers) : (answering a).Serves a where
  cursor := fun v => ⟨.empty, v, rfl⟩
  query := fun _ v => ⟨v, rfl⟩
  cursorClose := fun v => ⟨.empty, v, rfl⟩

/-- What a database reports of two tables, with the index of a key over two columns; the rows of the groups
are mixed up. -/
def orderedAnswers : Answers where
  columns := [⟨"users", "a", "INTEGER", 1, 1, none⟩, ⟨"users", "b", "INTEGER", 2, 1, none⟩,
    ⟨"posts", "u", "INTEGER", 0, 1, none⟩, ⟨"posts", "v", "INTEGER", 0, 1, none⟩]
  foreignKeys := [⟨"posts", 0, 1, "users", "v", some "b", "CASCADE", "NO ACTION"⟩,
    ⟨"posts", 0, 0, "users", "u", some "a", "CASCADE", "NO ACTION"⟩]
  indexes := [⟨"users", "sqlite_autoindex_users_3", 1, "u", some "b", 1⟩,
    ⟨"posts", "posts_u_v", 0, "c", some "v", 1⟩,
    ⟨"users", "sqlite_autoindex_users_1", 1, "pk", some "a", 0⟩,
    ⟨"users", "sqlite_autoindex_users_3", 1, "u", some "a", 0⟩,
    ⟨"users", "sqlite_autoindex_users_2", 1, "u", some "b", 0⟩,
    ⟨"posts", "posts_u_v", 0, "c", some "u", 0⟩,
    ⟨"users", "sqlite_autoindex_users_1", 1, "pk", some "b", 1⟩]

def orderedReport : Rows.Report where
  keys := [⟨"posts", 0, ⟨["u", "v"], ["a", "b"], "users", .cascade, .noAction⟩⟩]
  indexes := [⟨"users", "sqlite_autoindex_users_3", .unique ["a", "b"]⟩,
    ⟨"posts", "posts_u_v", .index ["u", "v"]⟩,
    ⟨"users", "sqlite_autoindex_users_1", .primaryKey [⟨1, some "a", 0⟩, ⟨1, some "b", 1⟩]⟩,
    ⟨"users", "sqlite_autoindex_users_2", .unique ["b"]⟩]

theorem schema_readBack_ordered :
    ∃ c id w', (schema (answering orderedAnswers) none).run.run ⟨(), []⟩ = (.ok (c, id), w') ∧
      w'.trace = (Query.all.flatMap callsOf).map .called ∧
      (c.snapshot id).ReadFrom (Snapshot.ofCommands Snapshot.ordered) orderedReport ∧
      ∃ p, Snapshot.diff Nat.repr (c.snapshot id) (Snapshot.ofCommands Snapshot.ordered) false = .ok p ∧
        p.operations = [] := by
  refine schema_readBack ?_ ?_ ?_ ?_ ?_ (serves_answering _) Nat.repr ⟨(), []⟩
  · exact Snapshot.reachable_ofCommands (by decide) (by decide)
  · cbv
  · exact Snapshot.isReportable_iff.mp (by cbv)
  · exact Report.isListOf_iff.mp (by cbv)
  · exact ⟨by cbv, by decide, by decide, by decide +kernel, by decide +kernel⟩

end Reading
end SchemaSync
