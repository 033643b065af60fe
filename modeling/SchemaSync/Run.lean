import SchemaSync.Error
import SchemaSync.Text.ControlSequence
import SchemaSync.Text.Lines

/-!
# Runs

A run works on a connection and leaves a single trace of what it did: the calls it made, what it logged
and reported, and what it printed, in one order. A run that fails keeps its trace and the state of the
connection.
-/

namespace SchemaSync

inductive Level where
  | debug
  | info
  | warning
  deriving DecidableEq

inductive Source where
  | reading
  | planning
  | execution
  | reporting
  deriving DecidableEq

def Level.keyword : Level → String
  | debug => "DEBUG"
  | info => "INFO"
  | warning => "WARNING"

def Source.logName : Source → String
  | reading => "litepush.migrations.db_introspector"
  | planning => "litepush.pusher"
  | execution => "litepush.migrations.executor"
  | reporting => "litepush.reporter"

structure LogEntry where
  level : Level
  source : Source
  message : String
  deriving DecidableEq

inductive Report where
  | noChanges
  | summary (text : String)
  | statement (sql : String)
  deriving DecidableEq

inductive Event where
  | called (call : Call)
  | logged (entry : LogEntry)
  | reported (report : Report)
  /-- A database was opened. -/
  | opened (path : String)
  | printed (text : String)
  | complained (text : String)
  deriving DecidableEq

/-- The state of a connection and the trace so far. -/
structure World (σ : Type) where
  state : σ
  trace : List Event

abbrev Run (σ : Type) := ExceptT SyncError (StateM (World σ))

namespace Run

variable {σ α : Type}

def record (e : Event) : Run σ Unit := modify fun w => { w with trace := w.trace ++ [e] }

def log (level : Level) (source : Source) (message : String) : Run σ Unit :=
  record (.logged ⟨level, source, message⟩)

/-- A line as it is printed: what would steer a terminal is left out, and every newline stands alone. -/
def lineText (line : String) : String :=
  String.ofList (Text.Lines.plainNewlines ((Text.ControlSequence.strip line).toList ++ ['\n']))

def printLine (line : String) : Run σ Unit := record (.printed (lineText line))

def complain (line : String) : Run σ Unit := record (.complained (lineText line))

/-- Make a call; it enters the trace whether it fails or not. -/
def call (conn : Connection σ) (c : Call) : Run σ Answer := fun w =>
  let (result, state) := conn.call c w.state
  (result.mapError .driver, { state, trace := w.trace ++ [.called c] })

def ofExcept {ε : Type} (wrap : ε → SyncError) (r : Except ε α) : Run σ α :=
  match r with
  | .ok a => pure a
  | .error e => throw (wrap e)

/-- Do `cleanup` after `body`, whether it failed or not; an error of the clean-up replaces the outcome. -/
def always (body : Run σ α) (cleanup : Run σ Unit) : Run σ α := fun w =>
  let (result, w) := body.run w
  let (cleaned, w) := cleanup.run w
  match cleaned with
  | .ok _ => (result, w)
  | .error e => (.error e, w)

/-- Make a cursor for `body`, and close it whether `body` failed or not. -/
def withCursor (conn : Connection σ) (body : Run σ α) : Run σ α := do
  let _ ← call conn .cursor
  always body (do let _ ← call conn .cursorClose)

/-- Do `body` and hand back its result, failed or not. -/
def attempt (body : Run σ α) : Run σ (Except SyncError α) := fun w =>
  let (result, w) := body.run w
  (.ok result, w)

/-! ### What a run leaves behind -/

/-- Recording adds one event at the end and leaves the connection alone. -/
@[simp] theorem run_record (e : Event) (w : World σ) :
    (record e).run.run w = (.ok (), { w with trace := w.trace ++ [e] }) := rfl

/-- A call enters the trace, whatever its outcome. -/
@[simp] theorem trace_call (conn : Connection σ) (c : Call) (w : World σ) :
    ((call conn c).run.run w).2.trace = w.trace ++ [.called c] := rfl

/-- A clean-up runs in the world that the body leaves, and its world is what remains. -/
theorem world_always (body : Run σ α) (cleanup : Run σ Unit) (w : World σ) :
    ((always body cleanup).run.run w).2 = (cleanup.run.run (body.run.run w).2).2 := by
  show (match (cleanup.run.run (body.run.run w).2).1 with
    | .ok _ => ((body.run.run w).1, (cleanup.run.run (body.run.run w).2).2)
    | .error e => (.error e, (cleanup.run.run (body.run.run w).2).2)).2 = _
  cases (cleanup.run.run (body.run.run w).2).1 <;> rfl

end Run
end SchemaSync
