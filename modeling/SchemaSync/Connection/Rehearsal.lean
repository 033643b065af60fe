import SchemaSync.Connection.Basic

/-!
# Rehearsed connections

A connection without a database: it answers the catalog queries with given rows, keeps the setting of
foreign key enforcement, and fails by rules. A rule fits calls of one kind whose SQL holds a given text;
it lets some of them pass and fails all later ones. No rule fits the making of a cursor.
-/

namespace SchemaSync

structure FaultRule where
  kind : String
  holds : String
  /-- How many calls that fit are still let pass. -/
  skip : Nat
  message : String

structure Rehearsal where
  columns : Answer
  foreignKeys : Answer
  indexes : Answer
  /-- The setting of foreign key enforcement, if the connection has it. -/
  enforcement : Option Int
  rules : List FaultRule

def occursIn (part : List Char) : List Char → Bool
  | [] => part.isEmpty
  | c :: cs => part.isPrefixOf (c :: cs) || occursIn part cs

namespace FaultRule

def fits (r : FaultRule) (c : Call) : Bool :=
  c != .cursor && r.kind == c.kind && occursIn r.holds.toList c.sql.toList

/-- Try the rules in order on a call: the complaint of the first that fails it, and the rules as they
are afterwards. -/
def apply (c : Call) : List FaultRule → Option DriverFault × List FaultRule
  | [] => (none, [])
  | r :: rs =>
    if r.fits c then
      -- Rules behind the one that fails the call do not see it.
      if r.skip = 0 then (some ⟨r.message⟩, r :: rs)
      else
        let (fault, rest) := apply c rs
        (fault, { r with skip := r.skip - 1 } :: rest)
    else
      let (fault, rest) := apply c rs
      (fault, r :: rest)

end FaultRule

namespace Rehearsal

def enforce (value : Int) (r : Rehearsal) : Rehearsal :=
  { r with enforcement := r.enforcement.map fun _ => value }

/-- Run a statement: the two that set the enforcement have an effect. -/
def execute (sql : String) (r : Rehearsal) : Rehearsal :=
  if sql == "PRAGMA foreign_keys=ON" then r.enforce 1
  else if sql == "PRAGMA foreign_keys=OFF" then r.enforce 0
  else r

def answer (r : Rehearsal) : Rows.Query → Answer
  | .columns => r.columns
  | .foreignKeys => r.foreignKeys
  | .indexes => r.indexes

def respond (c : Call) (r : Rehearsal) : Answer × Rehearsal :=
  match c.query?, c with
  | some q, _ => (r.answer q, r)
  | none, .cursorExecute sql =>
    if sql == "PRAGMA foreign_keys" then
      (⟨["foreign_keys"], r.enforcement.toList.map fun v => [.int v]⟩, r)
    else (.empty, r.execute sql)
  | none, .execute sql => (.empty, r.execute sql)
  | none, _ => (.empty, r)

def step (c : Call) (r : Rehearsal) : Except DriverFault Answer × Rehearsal :=
  let (fault, rules) := FaultRule.apply c r.rules
  let r := { r with rules }
  match fault with
  | some f => (.error f, r)
  | none =>
    let (answer, r) := r.respond c
    (.ok answer, r)

def connection (scripted : Bool) : Connection Rehearsal := ⟨scripted, step⟩

end Rehearsal
end SchemaSync
