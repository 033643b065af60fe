import SchemaSync.Execution
import SchemaSync.Proofs.Run.Exchanges

/-!
# The protocol of execution

Any call on a connection may fail, those that clean up included. `Execution.Course` lists the courses that
applying statements can take, each as the exchanges with the connection and the outcome: which calls were
made, in which order, how each of them ended, and what is told in the end. `Execution.apply_talks` says
that there are no others. It is put together from one lemma for each part of the execution, each of them
about every connection.

What the connection receives is written out in full here: the settings of enforcement, the script that holds
all statements (`scriptText`), and the setting that a reading asks to go back to (`Restores`).
-/

namespace SchemaSync

/-- Calls made one after the other up to the first that fails, with its fault. -/
inductive Exchange.InOrder : List Call → List Exchange → Option DriverFault → Prop
  | done : InOrder [] [] none
  | failed (c : Call) (cs : List Call) (f : DriverFault) : InOrder (c :: cs) [⟨c, .error f⟩] (some f)
  | next {cs : List Call} {es : List Exchange} {fault : Option DriverFault} (c : Call)
      (answer : Answer) (h : InOrder cs es fault) : InOrder (c :: cs) (⟨c, .ok answer⟩ :: es) fault

namespace Exchange.InOrder

variable {cs ds : List Call} {es gs : List Exchange} {f : DriverFault} {fault : Option DriverFault}

theorem append (h : InOrder cs es none) (hmore : InOrder ds gs fault) :
    InOrder (cs ++ ds) (es ++ gs) fault := by
  generalize hnone : (none : Option DriverFault) = x at h
  induction h with
  | done => exact hmore
  | failed c cs f => cases hnone
  | next c answer _ ih => exact (ih hnone).next c answer

/-- Calls behind the one that fails are not made. -/
theorem append_right (h : InOrder cs es (some f)) (ds : List Call) :
    InOrder (cs ++ ds) es (some f) := by
  generalize hsome : some f = x at h
  induction h with
  | done => cases hsome
  | failed c cs g =>
      cases hsome
      exact .failed c (cs ++ ds) f
  | next c answer _ ih => exact (ih hsome).next c answer

theorem calls_prefix (h : InOrder cs es fault) : es.map Exchange.call <+: cs := by
  induction h with
  | done => exact List.nil_prefix
  | failed c cs f => exact ⟨cs, rfl⟩
  | next c answer _ ih => exact List.cons_prefix_cons.mpr ⟨rfl, ih⟩

theorem single (c : Call) (result : Except DriverFault Answer) :
    InOrder [c] [⟨c, result⟩] (fault? ⟨c, result⟩) := by
  cases result with
  | ok answer => exact .next c answer .done
  | error f => exact .failed c [] f

end Exchange.InOrder

namespace Execution

open Exchange (InOrder)

variable {σ : Type} {conn : Connection σ} {statements : List String}

/-! ## Single statements -/

/-- A statement run by a cursor of its own, with the answer or the fault that comes of it. -/
inductive Single (sql : String) : List Exchange → Except DriverFault Answer → Prop
  /-- There is no cursor to run it by. -/
  | unmade (f : DriverFault) : Single sql [⟨.cursor, .error f⟩] (.error f)
  | closed (made closed : Answer) (result : Except DriverFault Answer) :
      Single sql [⟨.cursor, .ok made⟩, ⟨.cursorExecute sql, result⟩, ⟨.cursorClose, .ok closed⟩] result
  | unclosed (made : Answer) (result : Except DriverFault Answer) (f : DriverFault) :
      Single sql [⟨.cursor, .ok made⟩, ⟨.cursorExecute sql, result⟩, ⟨.cursorClose, .error f⟩]
        (.error f)

theorem Single.executeScript_not_mem {sql text : String} {es : List Exchange}
    {result : Except DriverFault Answer} (h : Single sql es result) :
    Call.executeScript text ∉ es.map Exchange.call := by
  cases h with
  | unmade | closed | unclosed => simp

theorem talks_runSingle (sql : String) : Run.Talks conn (runSingle conn sql) fun es r =>
    ∃ result, Single sql es result ∧ r = result.mapError .driver := by
  refine (Run.talks_call (.cursorExecute sql)).withCursor.mono ?_
  intro es r h
  rcases h with ⟨f, rfl, rfl⟩ | ⟨made, inner, _, closed, rfl, ⟨result, rfl, rfl⟩, rfl⟩
  · exact ⟨_, .unmade f, rfl⟩
  · cases closed with
    | ok answer => exact ⟨_, .closed made answer result, rfl⟩
    | error f => exact ⟨_, .unclosed made result f, rfl⟩

theorem talks_isEnforced : Run.Talks conn (isEnforced conn) fun es r =>
    ∃ result, Single "PRAGMA foreign_keys" es result ∧
      r = (result.mapError .driver).map firstIsTrue := by
  refine ((talks_runSingle "PRAGMA foreign_keys").map firstIsTrue).mono ?_
  intro es r h
  obtain ⟨_, ⟨result, hsingle, rfl⟩, rfl⟩ := h
  exact ⟨result, hsingle, rfl⟩

theorem talks_setEnforced (on : Bool) : Run.Talks conn (setEnforced conn on) fun es r =>
    ∃ result, Single (enforcement on) es result ∧
      r = (result.mapError .driver).map fun _ => () := by
  refine ((talks_runSingle (enforcement on)).map fun _ => ()).mono ?_
  intro es r h
  obtain ⟨_, ⟨result, hsingle, rfl⟩, rfl⟩ := h
  exact ⟨result, hsingle, rfl⟩

/-! ## The setting of enforcement -/

/-- Values that stand for a setting that is off. -/
inductive Unset : Rows.Cell → Prop
  | null : Unset .null
  | bool : Unset (.bool false)
  | int : Unset (.int 0)
  | real {x : Float} (h : (x == 0) = true) : Unset (.real x)
  | text : Unset (.text "")

theorem unset_iff {c : Rows.Cell} : Unset c ↔ c.isTrue = false := by
  constructor
  · rintro (_ | _ | _ | h | _)
    case real => simp [Rows.Cell.isTrue, bne, h]
    all_goals rfl
  · cases c with
    | null => exact fun _ => .null
    | bool b =>
        rintro (rfl : b = false)
        exact .bool
    | int i =>
        intro h
        obtain rfl : i = 0 := bne_eq_false_iff_eq.mp h
        exact .int
    | real x =>
        intro h
        have hzero : (x == 0) = true := by simpa [Rows.Cell.isTrue, bne] using h
        exact .real hzero
    | text s =>
        intro h
        obtain rfl : s = "" := bne_eq_false_iff_eq.mp h
        exact .text
    | other => rintro ⟨⟩

/-- The statement that sets enforcement to what an answer says, which counts by the first value of its first
row. -/
inductive Restores (answer : Answer) : String → Prop
  | on {c : Rows.Cell} {cells : List Rows.Cell} {rows : List (List Rows.Cell)}
      (hrows : answer.rows = (c :: cells) :: rows) (hset : ¬ Unset c) :
      Restores answer "PRAGMA foreign_keys=ON"
  /-- Also an answer without any value says that it is off. -/
  | off (hunset : ∀ c cells rows, answer.rows = (c :: cells) :: rows → Unset c) :
      Restores answer "PRAGMA foreign_keys=OFF"

@[simp] theorem enforcement_true : enforcement true = "PRAGMA foreign_keys=ON" := rfl

@[simp] theorem enforcement_false : enforcement false = "PRAGMA foreign_keys=OFF" := rfl

theorem restores_enforcement (answer : Answer) : Restores answer (enforcement (firstIsTrue answer)) := by
  unfold firstIsTrue
  split
  next c cells rows hrows =>
    cases hc : c.isTrue with
    | true => exact .on hrows (by simp [unset_iff, hc])
    | false =>
        refine .off fun d ds rest hrest => ?_
        obtain rfl : c = d := by simp_all
        exact unset_iff.mpr hc
  next hnone => exact .off fun c cells rows hrows => absurd hrows (hnone c cells rows)

/-! ## The statements -/

/-- The script for some statements, every line ended by a semicolon: enforcement is switched off, then the
statements form one transaction. -/
def scriptText (statements : List String) : String :=
  "\n".intercalate (("PRAGMA foreign_keys=OFF" :: "BEGIN" :: statements ++ ["COMMIT"]).map (· ++ ";"))

/-- The semicolon that ends a line and the newline behind it are what the program puts between lines. -/
theorem intercalate_ended {lines : List String} (hsome : lines ≠ []) :
    "\n".intercalate (lines.map (· ++ ";")) = ";\n".intercalate lines ++ ";" := by
  induction lines with
  | nil => exact absurd rfl hsome
  | cons line lines ih =>
      cases lines with
      | nil => rfl
      | cons next lines =>
          have hrest := ih (List.cons_ne_nil next lines)
          rw [List.map_cons] at hrest ⊢
          rw [List.map_cons, String.intercalate_cons_cons, hrest, String.intercalate_cons_cons]
          simp only [String.append_assoc]
          rfl

theorem script_eq (hsome : statements ≠ []) : script statements = scriptText statements := by
  have hopening : "PRAGMA foreign_keys=OFF;\nBEGIN;\n" = "PRAGMA foreign_keys=OFF" ++ ";\n" ++ ("BEGIN" ++ ";\n") := by
    simp only [String.reduceAppend]
  have hclosing : ";\nCOMMIT;" = ";\n" ++ "COMMIT" ++ ";" := by simp only [String.reduceAppend]
  have hbody : statements ++ ["COMMIT"] ≠ [] := List.append_ne_nil_of_left_ne_nil hsome _
  rw [scriptText, List.cons_append, List.cons_append, intercalate_ended (List.cons_ne_nil _ _),
    String.intercalate_cons_cons, String.intercalate_cons_of_ne_nil hbody,
    String.intercalate_append_of_ne_nil hsome (List.cons_ne_nil _ _), String.intercalate_singleton]
  unfold script
  rw [hopening, hclosing]
  simp only [String.append_assoc]

/-- The calls that carry out statements: enforcement is switched off, every statement is run once, in
order, and all of them are committed. -/
def batch (scripted : Bool) (statements : List String) : List Call :=
  if scripted then [.execute "PRAGMA foreign_keys=OFF", .executeScript (scriptText statements)]
  else .cursor :: ("PRAGMA foreign_keys=OFF" :: statements).map .cursorExecute ++ [.cursorClose, .commit]

/-- Calls made in order up to one that fails, with the last fault. No call follows it but, where a cursor
is open, the closing of that cursor. -/
inductive Interrupted (calls : List Call) : List Exchange → DriverFault → Prop
  | stopped {es : List Exchange} {f : DriverFault} (h : InOrder calls es (some f)) : Interrupted calls es f
  | closed {es : List Exchange} {f : DriverFault} (h : InOrder calls es (some f)) (answer : Answer) :
      Interrupted calls (es ++ [⟨.cursorClose, .ok answer⟩]) f
  | unclosed {es : List Exchange} {f : DriverFault} (h : InOrder calls es (some f)) (g : DriverFault) :
      Interrupted calls (es ++ [⟨.cursorClose, .error g⟩]) g

theorem Interrupted.append_right {calls : List Call} {es : List Exchange} {f : DriverFault}
    (h : Interrupted calls es f) (more : List Call) : Interrupted (calls ++ more) es f := by
  cases h with
  | stopped h => exact .stopped (h.append_right more)
  | closed h answer => exact .closed (h.append_right more) answer
  | unclosed h g => exact .unclosed (h.append_right more) _

theorem Interrupted.mem_call {calls : List Call} {es : List Exchange} {f : DriverFault}
    (h : Interrupted calls es f) {c : Call} (hc : c ∈ es.map Exchange.call) : c ∈ calls ∨ c = .cursorClose := by
  cases h with
  | stopped h => exact .inl (h.calls_prefix.subset hc)
  | closed h | unclosed h =>
      rw [List.map_append] at hc
      exact (List.mem_append.mp hc).imp (h.calls_prefix.subset ·) List.mem_singleton.mp

/-- Calls that are all made and answered, or interrupted by one that fails. -/
def Attempted (calls : List Call) (es : List Exchange) (r : Except SyncError Unit) : Prop :=
  (InOrder calls es none ∧ r = .ok ()) ∨ ∃ f, Interrupted calls es f ∧ r = .error (.driver f)

/-- What is told of calls that go in order up to a fault, if there is one. -/
def told (fault : Option DriverFault) : Except SyncError Unit :=
  fault.elim (.ok ()) fun f => .error (.driver f)

theorem Attempted.append {calls more : List Call} {es gs : List Exchange} {fault : Option DriverFault}
    (h : Attempted calls es (.ok ())) (hmore : InOrder more gs fault) :
    Attempted (calls ++ more) (es ++ gs) (told fault) := by
  rcases h with ⟨hall, -⟩ | ⟨f, -, hr⟩
  · cases fault with
    | none => exact Or.inl ⟨hall.append hmore, rfl⟩
    | some f => exact Or.inr ⟨f, .stopped (hall.append hmore), rfl⟩
  · cases hr

theorem Attempted.append_right {calls : List Call} {es : List Exchange} {e : SyncError}
    (h : Attempted calls es (.error e)) (more : List Call) :
    Attempted (calls ++ more) es (.error e) := by
  rcases h with ⟨-, hr⟩ | ⟨f, hinterrupted, hr⟩
  · cases hr
  · exact Or.inr ⟨f, hinterrupted.append_right more, hr⟩

/-- More calls are made behind a part only if that part went well. -/
theorem talks_attempted_bind {α : Type} {m : Run σ α} {n : Run σ Unit} {calls more : List Call}
    (hm : Run.Talks conn m fun es r => Attempted calls es (r.map fun _ => ()))
    (hn : Run.Talks conn n fun es r => ∃ fault, InOrder more es fault ∧ r = told fault) :
    Run.Talks conn (m >>= fun _ => n) fun es r => Attempted (calls ++ more) es r := by
  refine (hm.bind fun _ => hn).mono ?_
  intro es r h
  rcases h with ⟨e, hfirst, rfl⟩ | ⟨a, first, rest, rfl, hfirst, fault, hrest, rfl⟩
  · exact hfirst.append_right more
  · exact hfirst.append hrest

theorem talks_call_unit (c : Call) :
    Run.Talks conn (do let _ ← Run.call conn c) fun es r =>
      ∃ fault, InOrder [c] es fault ∧ r = told fault := by
  refine ((Run.talks_call c).map fun _ => ()).mono ?_
  intro es r h
  obtain ⟨_, ⟨result, rfl, rfl⟩, rfl⟩ := h
  refine ⟨_, .single c result, ?_⟩
  cases result <;> rfl

/-- Statements run by an open cursor go in order up to the first that fails. -/
theorem talks_forM (sqls : List String) :
    Run.Talks conn (sqls.forM fun s => do let _ ← Run.call conn (.cursorExecute s)) fun es r =>
      ∃ fault, InOrder (sqls.map .cursorExecute) es fault ∧
        r = told fault := by
  induction sqls with
  | nil =>
      refine (Run.talks_pure ()).mono ?_
      rintro es r ⟨rfl, rfl⟩
      exact ⟨none, .done, rfl⟩
  | cons s sqls ih =>
      refine ((talks_call_unit (.cursorExecute s)).bind fun _ => ih).mono ?_
      intro es r h
      rcases h with ⟨e, ⟨fault, hfirst, hr⟩, rfl⟩ | ⟨a, first, rest, rfl, ⟨fault, hfirst, hr⟩, hrest⟩
      · cases fault with
        | none => cases hr
        | some f => exact ⟨some f, hfirst.append_right _, hr⟩
      · cases fault with
        | none =>
            obtain ⟨fault, hrest, rfl⟩ := hrest
            exact ⟨fault, hfirst.append hrest, rfl⟩
        | some f => cases hr

theorem talks_runAll (sqls : List String) : Run.Talks conn (runAll conn sqls) fun es r =>
    Attempted (.cursor :: sqls.map .cursorExecute ++ [.cursorClose]) es r := by
  refine (talks_forM sqls).withCursor.mono ?_
  intro es r h
  rcases h with ⟨f, rfl, rfl⟩ | ⟨made, inner, result, closed, rfl, ⟨fault, hinner, rfl⟩, rfl⟩
  · exact Or.inr ⟨f, .stopped (.failed _ _ f), rfl⟩
  · have hmade : InOrder (.cursor :: sqls.map .cursorExecute) (⟨.cursor, .ok made⟩ :: inner) fault :=
      hinner.next .cursor made
    cases fault with
    | none =>
        have hall := hmade.append (.single .cursorClose closed)
        cases closed with
        | ok answer => exact Or.inl ⟨hall, rfl⟩
        | error f => exact Or.inr ⟨f, .stopped hall, rfl⟩
    | some f =>
        have hstopped := hmade.append_right [.cursorClose]
        cases closed with
        | ok answer => exact Or.inr ⟨f, .closed hstopped answer, rfl⟩
        | error g => exact Or.inr ⟨g, .unclosed hstopped g, rfl⟩

theorem talks_transact (hsome : statements ≠ []) : Run.Talks conn (transact conn statements) fun es r =>
    Attempted (batch conn.scripted statements) es r := by
  unfold transact batch
  rw [script_eq hsome, enforcement_false]
  cases conn.scripted with
  | true =>
      have hoff : Run.Talks conn (Run.call conn (.execute "PRAGMA foreign_keys=OFF")) fun es r =>
          Attempted [.execute "PRAGMA foreign_keys=OFF"] es (r.map fun _ => ()) := by
        refine (Run.talks_call _).mono ?_
        rintro es r ⟨result, rfl, rfl⟩
        cases result with
        | ok answer => exact Or.inl ⟨.single _ _, rfl⟩
        | error f => exact Or.inr ⟨f, .stopped (.single _ _), rfl⟩
      exact talks_attempted_bind hoff (talks_call_unit _)
  | false =>
      have hrun : Run.Talks conn (runAll conn ("PRAGMA foreign_keys=OFF" :: statements)) fun es r =>
          Attempted (.cursor :: ("PRAGMA foreign_keys=OFF" :: statements).map .cursorExecute ++ [.cursorClose])
            es (r.map fun _ => ()) := by
        refine (talks_runAll _).mono ?_
        intro es r h
        have hr : r.map (fun _ => ()) = r := by cases r <;> rfl
        rw [hr]
        exact h
      have hsplit : [Call.cursorClose, .commit] = [.cursorClose] ++ [.commit] := rfl
      rw [if_neg Bool.false_ne_true, if_neg Bool.false_ne_true, hsplit, ← List.append_assoc]
      exact talks_attempted_bind hrun (talks_call_unit .commit)

/-! ## Rolling back -/

/-- Rolling back is one call, whatever comes of it. -/
theorem talks_rollBack : Run.Talks conn (rollBack conn) fun es r =>
    ∃ result, es = [⟨.rollback, result⟩] ∧ r = .ok () := by
  refine ((Run.talks_call .rollback).attempt.bind fun x =>
    (?_ : Run.Talks conn _ fun es r => es = [] ∧ r = .ok ())).mono ?_
  · cases x with
    | ok answer => exact Run.talks_pure ()
    | error e => exact Run.talks_log _ _ _
  · intro es r h
    rcases h with ⟨e, ⟨_, -, hr⟩, -⟩ | ⟨x, first, rest, rfl, ⟨_, ⟨result, rfl, -⟩, -⟩, rfl, rfl⟩
    · cases hr
    · exact ⟨result, rfl, rfl⟩

/-- How statements are carried out, and what is told. -/
inductive Transacted (scripted : Bool) (statements : List String) :
    List Exchange → Except SyncError Unit → Prop
  /-- Enforcement was switched off, every statement run and all committed. -/
  | committed {es : List Exchange} (h : InOrder (batch scripted statements) es none) :
      Transacted scripted statements es (.ok ())
  /-- A call failed and no further one of them was made; one attempt to roll back followed, and the
  fault is told with all statements, whatever came of that. -/
  | rolledBack {es : List Exchange} {f : DriverFault} (h : Interrupted (batch scripted statements) es f)
      (result : Except DriverFault Answer) :
      Transacted scripted statements (es ++ [⟨.rollback, result⟩]) (.error (.execution f.message statements))

theorem Transacted.mem_call {scripted : Bool} {es : List Exchange} {r : Except SyncError Unit}
    (h : Transacted scripted statements es r) {c : Call} (hc : c ∈ es.map Exchange.call) :
    c ∈ batch scripted statements ∨ c = .cursorClose ∨ c = .rollback := by
  cases h with
  | committed h => exact .inl (h.calls_prefix.subset hc)
  | rolledBack h =>
      rw [List.map_append] at hc
      rcases List.mem_append.mp hc with hc | hc
      · exact (h.mem_call hc).imp_right .inl
      · exact .inr (.inr (List.mem_singleton.mp hc))

theorem Transacted.eq_scriptText {scripted : Bool} {es : List Exchange} {r : Except SyncError Unit}
    (h : Transacted scripted statements es r) {text : String}
    (htext : Call.executeScript text ∈ es.map Exchange.call) : scripted = true ∧ text = scriptText statements := by
  rcases h.mem_call htext with hbatch | hclose | hback
  · cases scripted with
    | true => simpa [batch] using hbatch
    | false => simp [batch] at hbatch
  · cases hclose
  · cases hback

theorem talks_transactOrRollBack (hsome : statements ≠ []) :
    Run.Talks conn (transactOrRollBack conn statements) (Transacted conn.scripted statements) := by
  refine ((talks_transact hsome).attempt.bind fun x => (?_ : Run.Talks conn _ fun es r => match x with
    | .ok _ => es = [] ∧ r = .ok ()
    | .error e => ∃ result, es = [⟨.rollback, result⟩] ∧ r = .error (.execution e.message statements))).mono ?_
  · cases x with
    | ok _ => exact Run.talks_pure ()
    | error e =>
        refine (talks_rollBack.bind fun _ => Run.talks_throw (.execution e.message statements)).mono ?_
        intro es r h
        rcases h with ⟨_, ⟨result, -, hr⟩, -⟩ | ⟨_, first, rest, rfl, ⟨result, rfl, -⟩, rfl, rfl⟩
        · cases hr
        · exact ⟨result, rfl, rfl⟩
  · intro es r h
    rcases h with ⟨e, ⟨_, -, hr⟩, -⟩ | ⟨x, first, rest, rfl, ⟨_, hfirst, hx⟩, hrest⟩
    · cases hr
    · cases hx
      rcases hfirst with ⟨hall, rfl⟩ | ⟨f, hinterrupted, rfl⟩
      · obtain ⟨rfl, rfl⟩ := hrest
        rw [List.append_nil]
        exact .committed hall
      · obtain ⟨result, rfl, rfl⟩ := hrest
        exact .rolledBack hinterrupted result

/-! ## The whole course -/

/-- The courses that applying statements can take. -/
inductive Course (scripted : Bool) (statements : List String) :
    List Exchange → Except SyncError Unit → Prop
  /-- The setting of enforcement cannot be read: its fault is told, and nothing else is run. -/
  | unread {reading : List Exchange} {f : DriverFault}
      (hread : Single "PRAGMA foreign_keys" reading (.error f)) :
      Course scripted statements reading (.error (.driver f))
  /-- The statements were carried out or rolled back, and the setting then restored to what was read. -/
  | restored {reading body restoring : List Exchange} {answer last : Answer} {sql : String}
      {result : Except SyncError Unit} (hread : Single "PRAGMA foreign_keys" reading (.ok answer))
      (hbody : Transacted scripted statements body result) (hsetting : Restores answer sql)
      (hrestore : Single sql restoring (.ok last)) :
      Course scripted statements (reading ++ body ++ restoring) result
  /-- The restoring, which comes last in any case, failed: its fault is told in place of the rest. -/
  | unrestored {reading body restoring : List Exchange} {answer : Answer} {sql : String} {f : DriverFault}
      {result : Except SyncError Unit} (hread : Single "PRAGMA foreign_keys" reading (.ok answer))
      (hbody : Transacted scripted statements body result) (hsetting : Restores answer sql)
      (hrestore : Single sql restoring (.error f)) :
      Course scripted statements (reading ++ body ++ restoring) (.error (.driver f))

/-- The only script that is ever run holds the statements. -/
theorem Course.eq_scriptText {scripted : Bool} {es : List Exchange} {outcome : Except SyncError Unit}
    (h : Course scripted statements es outcome) {text : String}
    (htext : Call.executeScript text ∈ es.map Exchange.call) : scripted = true ∧ text = scriptText statements := by
  cases h with
  | unread hread => exact absurd htext hread.executeScript_not_mem
  | restored hread hbody _ hrestore | unrestored hread hbody _ hrestore =>
      rw [List.map_append, List.map_append] at htext
      rcases List.mem_append.mp htext with htext | htext
      · rcases List.mem_append.mp htext with htext | htext
        · exact absurd htext hread.executeScript_not_mem
        · exact hbody.eq_scriptText htext
      · exact absurd htext hrestore.executeScript_not_mem

/-- Applying some statements takes one of these courses. -/
theorem talks_apply (hsome : statements ≠ []) :
    Run.Talks conn (apply conn statements) (Course conn.scripted statements) := by
  unfold apply
  have hnot : ¬ statements.isEmpty = true := by simpa using hsome
  simp only [if_neg hnot]
  refine ((Run.talks_log _ _ _).bind fun _ => talks_isEnforced.bind fun value =>
    (talks_transactOrRollBack hsome).always (talks_setEnforced value)).mono ?_
  intro es outcome h
  rcases h with ⟨e, ⟨-, hr⟩, -⟩ | ⟨_, first, rest, rfl, ⟨rfl, -⟩, h⟩
  · cases hr
  · rcases h with ⟨e, ⟨read, hread, hr⟩, rfl⟩ |
      ⟨value, reading, rest, rfl, ⟨read, hread, hr⟩, result, cleaned, body, restoring, rfl, hbody,
        ⟨last, hrestore, rfl⟩, rfl⟩
    · cases read with
      | ok answer => cases hr
      | error f =>
          cases hr
          exact .unread hread
    · cases read with
      | error f => cases hr
      | ok answer =>
          cases hr
          rw [List.nil_append, ← List.append_assoc]
          cases last with
          | ok closing => exact .restored hread hbody (restores_enforcement answer) hrestore
          | error f => exact .unrestored hread hbody (restores_enforcement answer) hrestore

/-- **The protocol of execution**: on every connection, whichever of its calls fail, applying no statements
makes no call, and applying some takes one of the courses of `Course`. -/
theorem apply_talks (conn : Connection σ) (statements : List String) :
    Run.Talks conn (apply conn statements) fun es outcome =>
      if statements = [] then es = [] ∧ outcome = .ok ()
      else Course conn.scripted statements es outcome := by
  by_cases hempty : statements = []
  · subst hempty
    exact Run.talks_pure ()
  · simp only [if_neg hempty]
    exact talks_apply hempty

end Execution
end SchemaSync
