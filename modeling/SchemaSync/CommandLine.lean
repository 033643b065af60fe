import SchemaSync.Push

/-!
# Command line

The two commands of the program: `plan` shows the statements that a push would run, `push` runs them. The
database and the start of the considered table names come from options in front of the command or from the
environment; the modules that declare the tables follow the command.
-/

namespace SchemaSync.CommandLine

/-! ### Arguments -/

inductive Command where
  | plan
  | push
  deriving DecidableEq

structure Invocation where
  database : Option String
  start : Option String
  command : Command
  modules : List String
  creationMode : Bool
  dryRun : Bool

inductive UsageError where
  | missingCommand
  | unknownCommand (name : String)
  | unknownOption (name : String)
  | missingValue (option : String)
  | missingModules

def UsageError.message : UsageError → String
  | missingCommand => "Missing command."
  | unknownCommand name => "No such command '" ++ name ++ "'."
  | unknownOption name => "No such option: " ++ name
  | missingValue option => "Option '" ++ option ++ "' requires an argument."
  | missingModules => "Missing argument 'MODULES...'."

structure Options where
  database : Option String
  start : Option String

/-- An argument that gives an option its value at once: `--name=value` or `-nvalue`. -/
def attached? (long short argument : String) : Option String :=
  let a := argument.toList
  let l := long.toList ++ ['=']
  if l.isPrefixOf a then some (String.ofList (a.drop l.length))
  else if short.toList.isPrefixOf a ∧ a ≠ short.toList then
    some (String.ofList (a.drop short.length))
  else none

def isOption (argument : String) : Bool :=
  match argument.toList with
  | '-' :: _ :: _ => true
  | _ => false

/-- Read the options in front of the command; what is left starts with the command. -/
def readOptions (o : Options) : List String → Except UsageError (Options × List String)
  | [] => pure (o, [])
  | a :: rest =>
    if a == "--" then pure (o, rest)
    else
      match attached? "--database" "-d" a, attached? "--prefix" "-p" a with
      | some v, _ => readOptions { o with database := some v } rest
      | none, some v => readOptions { o with start := some v } rest
      | none, none =>
        if a == "--database" || a == "-d" then
          match rest with
          | [] => throw (.missingValue a)
          | v :: rest => readOptions { o with database := some v } rest
        else if a == "--prefix" || a == "-p" then
          match rest with
          | [] => throw (.missingValue a)
          | v :: rest => readOptions { o with start := some v } rest
        else if isOption a then throw (.unknownOption a)
        else pure (o, a :: rest)

/-- Read the arguments after the command: modules, and flags anywhere between them. -/
def readArguments (i : Invocation) : List String → Except UsageError Invocation
  | [] => pure i
  | a :: rest =>
    if a == "--" then pure { i with modules := i.modules ++ rest }
    else if a == "--creation-mode" then readArguments { i with creationMode := true } rest
    else if a == "--dry-run" && i.command == .push then
      readArguments { i with dryRun := true } rest
    else if isOption a then throw (.unknownOption a)
    else readArguments { i with modules := i.modules ++ [a] } rest

def command? (name : String) : Option Command :=
  if name == "plan" then some .plan else if name == "push" then some .push else none

/-- Read the arguments of a call; an option that is not given is taken from `defaults`. -/
def read (defaults : Options) (arguments : List String) : Except UsageError Invocation := do
  let (o, rest) ← readOptions ⟨none, none⟩ arguments
  match rest with
  | [] => throw .missingCommand
  | name :: rest =>
    match command? name with
    | none => throw (.unknownCommand name)
    | some command =>
      let i ← readArguments
        { database := o.database <|> defaults.database, start := o.start <|> defaults.start, command,
          modules := [], creationMode := false, dryRun := false } rest
      -- Modules may stand on either side of a flag, so they are counted at the end.
      if i.modules.isEmpty then throw .missingModules
      pure i

/-! ### Surroundings -/

/-- What the program finds around it. -/
structure Host (σ : Type) where
  /-- The declarations after those of a module have been added, or why they cannot be, if there is such a
  module. -/
  load : String → Registry → Option (Except SyncError Registry)
  /-- A variable of the environment. -/
  environment : String → Option String
  connection : Connection σ
  suffixes : Nat → String

/-- A variable of the environment; an empty one counts as not set. -/
def Host.setting? {σ : Type} (h : Host σ) (name : String) : Option String :=
  (h.environment name).filter fun v => v != ""

/-- The options that the environment gives. -/
def Host.defaults {σ : Type} (h : Host σ) : Options :=
  ⟨h.setting? "LITEPUSH_DATABASE", h.setting? "LITEPUSH_PREFIX"⟩

/-! ### Modules -/

/-- The declarations so far and the modules that they come from. -/
structure Loaded where
  registry : Registry
  modules : List String

inductive LoadError where
  /-- There is no such module. -/
  | missing (name complaint : String)
  /-- Something went wrong that is not foreseen. -/
  | failed (cause : SyncError)

/-- Load the module of a name; one that is not there leaves a complaint. A module holds no other modules,
so a dotted name fails at its first dot. -/
def loadModule {σ : Type} (h : Host σ) (registry : Registry) (name : String) :
    Except LoadError Registry := do
  let missing (part reason : String) : LoadError :=
    .missing name ("No module named " ++ Text.Quoted.quote part ++ reason)
  let load (name : String) : Except LoadError Registry :=
    match h.load name registry with
    | some result => result.mapError .failed
    | none => throw (missing name "")
  match name.splitOn "." with
  | first :: second :: _ =>
    if first == "" then throw (.failed (.moduleName (.relative name)))
    else
      let _ ← load first
      throw (missing (first ++ "." ++ second) ("; " ++ Text.Quoted.quote first ++ " is not a package"))
  | _ => if name == "" then throw (.failed (.moduleName .empty)) else load name

/-- Load modules in order, each once. -/
def loadAll {σ : Type} (h : Host σ) (l : Loaded) : List String → Except LoadError Loaded
  | [] => pure l
  | name :: rest => do
    if l.modules.contains name then loadAll h l rest
    else loadAll h ⟨← loadModule h l.registry name, name :: l.modules⟩ rest

/-! ### Commands -/

variable {σ : Type}

/-- Do something with the connection and close it in any case; a foreseen error is printed and leaves no
result. -/
def connected {α : Type} (h : Host σ) (body : Run σ α) : Run σ (Option α) :=
  Run.always
    (do
      match ← Run.attempt body with
      | .ok a => pure (some a)
      | .error e =>
        if e.isForeseen then
          Run.complain ("Error: " ++ e.message)
          pure none
        else throw e)
    (do let _ ← Run.call h.connection .close)

def showPlan (p : Plan) : Run σ Unit := do
  if p.isEmpty then Run.printLine "No changes to apply."
  else
    Run.printLine p.summary.describe
    Run.printLine ""
    Run.printLine p.describe
    Run.printLine ""
    (← Run.ofExcept .render p.statements).forM fun sql => Run.printLine (sql ++ ";")

def Invocation.options (i : Invocation) : PushOptions := ⟨i.creationMode, i.start, i.dryRun⟩

/-- Carry out a command over an open database. The result is the exit code. -/
def carryOut (h : Host σ) (i : Invocation) (models : List Model) : Run σ Nat :=
  match i.command with
  | .plan => do
    match ← connected h (planPush h.connection models i.options h.suffixes) with
    | none => pure 1
    | some p =>
      showPlan p
      pure 0
  | .push => do
    match ← connected h (push h.connection models i.options .terminal h.suffixes) with
    | none => pure 1
    | some p =>
      if !p.isEmpty && !i.dryRun then
        Run.printLine ("Applied " ++ p.operations.length.repr ++ " operations.")
      pure 0

/-- Load the modules of a call, open its database and carry out its command. -/
def perform (h : Host σ) (i : Invocation) : Run σ Nat := do
  match loadAll h ⟨[], []⟩ i.modules with
  | .error (.missing name complaint) =>
    Run.complain ("Error importing " ++ name ++ ": " ++ complaint)
    pure 1
  | .error (.failed e) => throw e
  | .ok loaded =>
    match i.database.filter fun d => d != "" with
    | none =>
      Run.complain "Error: no database given (use --database or LITEPUSH_DATABASE)"
      pure 1
    | some path =>
      Run.record (.opened path)
      carryOut h i loaded.registry.registered

/-- The program: arguments to exit code. -/
def run (h : Host σ) (arguments : List String) : Run σ Nat := do
  match read h.defaults arguments with
  | .ok i => perform h i
  | .error e =>
    Run.complain ("Error: " ++ e.message)
    pure 2

end SchemaSync.CommandLine
