import SchemaSync.Rows.Row

/-!
# Connections

What a database connection is asked to do, and a connection as a function of its own state: each call
either answers with rows or fails, and may change the state. Nothing is assumed about which calls fail.
-/

namespace SchemaSync

inductive Call where
  /-- Make a cursor. -/
  | cursor
  /-- Run a statement by a cursor and fetch what it answers. -/
  | cursorExecute (sql : String)
  /-- Run a query on the catalog by a cursor. -/
  | query (query : Rows.Query)
  | cursorClose
  /-- Run a statement on the connection itself. -/
  | execute (sql : String)
  /-- Run a script of several statements. -/
  | executeScript (sql : String)
  | commit
  | rollback
  | close
  deriving DecidableEq

namespace Call

def kind : Call → String
  | cursor => "cursor"
  | cursorExecute _ | query _ => "cursor.execute"
  | cursorClose => "cursor.close"
  | execute _ => "execute"
  | executeScript _ => "executescript"
  | commit => "commit"
  | rollback => "rollback"
  | close => "close"

/-- The SQL that a call runs; empty where it runs none. -/
def sql : Call → String
  | cursorExecute sql | execute sql | executeScript sql => sql
  | query q => q.sql
  | _ => ""

/-- The catalog query that a call runs by a cursor, if it runs one. -/
def query? : Call → Option Rows.Query
  | query q => some q
  | cursorExecute sql => Rows.Query.ofSql? sql
  | _ => none

/-- What a trace shows of a call: the name of a catalog query, or the SQL. -/
def label (c : Call) : String :=
  match c.query? with
  | some q => q.name
  | none => c.sql

end Call

structure DriverFault where
  message : String
  deriving DecidableEq

structure Answer where
  names : List String
  rows : List (List Rows.Cell)

def Answer.empty : Answer := ⟨[], []⟩

/-- A database connection with states in `σ`. -/
structure Connection (σ : Type) where
  /-- Whether the connection runs whole scripts. -/
  scripted : Bool
  call : Call → σ → Except DriverFault Answer × σ

end SchemaSync
