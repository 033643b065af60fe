/-!
# Referential actions

What happens to a referencing row when the row it refers to is updated or deleted.
-/

namespace SchemaSync

inductive Action where
  | noAction
  | restrict
  | setNull
  | setDefault
  | cascade
  deriving DecidableEq, Repr, Inhabited

namespace Action

def keyword : Action → String
  | noAction => "NO ACTION"
  | restrict => "RESTRICT"
  | setNull => "SET NULL"
  | setDefault => "SET DEFAULT"
  | cascade => "CASCADE"

def all : List Action := [noAction, restrict, setNull, setDefault, cascade]

def ofKeyword? (s : String) : Option Action := all.find? fun a => a.keyword == s

/-- A keyword is read back as its action. -/
theorem ofKeyword?_keyword (a : Action) : ofKeyword? a.keyword = some a := by
  cases a <;> decide

/-- Only its keyword is read as an action. -/
theorem keyword_of_ofKeyword? {s : String} {a : Action} (h : ofKeyword? s = some a) : a.keyword = s := by
  unfold ofKeyword? at h
  simpa using List.find?_some h

end Action
end SchemaSync
