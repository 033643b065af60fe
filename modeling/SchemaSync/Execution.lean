import SchemaSync.Run

/-!
# Execution

Applying a list of statements as a whole or not at all. Foreign key enforcement is read, switched off for
the time of the statements and set back to what it was, whatever happens between; a failure rolls the
transaction back.
-/

namespace SchemaSync.Execution

variable {σ : Type}

/-- Statements as one script: a transaction with foreign key enforcement switched off. -/
def script (statements : List String) : String :=
  "PRAGMA foreign_keys=OFF;\nBEGIN;\n" ++ ";\n".intercalate statements ++ ";\nCOMMIT;"

def enforcement (on : Bool) : String := "PRAGMA foreign_keys=" ++ (if on then "ON" else "OFF")

def runAll (conn : Connection σ) (statements : List String) : Run σ Unit :=
  Run.withCursor conn (statements.forM fun s => do let _ ← Run.call conn (.cursorExecute s))

def firstIsTrue (answer : Answer) : Bool :=
  match answer.rows with
  | (c :: _) :: _ => c.isTrue
  | _ => false

def runSingle (conn : Connection σ) (sql : String) : Run σ Answer :=
  Run.withCursor conn (Run.call conn (.cursorExecute sql))

def isEnforced (conn : Connection σ) : Run σ Bool := do
  pure (firstIsTrue (← runSingle conn "PRAGMA foreign_keys"))

def setEnforced (conn : Connection σ) (on : Bool) : Run σ Unit := do
  let _ ← runSingle conn (enforcement on)

/-- Run all statements and commit them: as one script where the connection takes scripts, else one by
one. -/
def transact (conn : Connection σ) (statements : List String) : Run σ Unit := do
  if conn.scripted then
    let _ ← Run.call conn (.execute (enforcement false))
    let _ ← Run.call conn (.executeScript (script statements))
  else
    runAll conn (enforcement false :: statements)
    let _ ← Run.call conn .commit

/-- Roll the transaction back; a failure of that is logged only. -/
def rollBack (conn : Connection σ) : Run σ Unit := do
  match ← Run.attempt (Run.call conn .rollback) with
  | .ok _ => pure ()
  | .error _ => Run.log .warning .execution "Rollback after failed push also failed"

/-- Run all statements, or roll back and fail with all of them. -/
def transactOrRollBack (conn : Connection σ) (statements : List String) : Run σ Unit := do
  match ← Run.attempt (transact conn statements) with
  | .ok _ => pure ()
  | .error e =>
    -- The first failure is the one to tell, also when the rollback fails as well.
    rollBack conn
    throw (.execution e.message statements)

/-- Apply every statement or none of them. -/
def apply (conn : Connection σ) (statements : List String) : Run σ Unit := do
  if statements.isEmpty then return ()
  Run.log .debug .execution ("Applying " ++ statements.length.repr ++ " statements")
  -- Inside a transaction enforcement cannot be switched, so it is switched around all of it.
  let enforced ← isEnforced conn
  Run.always (transactOrRollBack conn statements) (setEnforced conn enforced)

end SchemaSync.Execution
