import SchemaSync.Proofs.Diff.Outcome
import SchemaSync.Proofs.Model.Consistency
import SchemaSync.Proofs.Run.Execution
import SchemaSync.Proofs.Run.Reading
import SchemaSync.Proofs.Run.Watching

/-!
# The order of a push

A push first reads and plans, then reports, then applies. While it plans, the connection gets the catalog queries and
nothing else (`asks_planPush`); what is reported and applied afterwards depends on the plan, and `Push.Course` lists
how. The main statement is `push_in_order`: there are no other courses, on any connection and whichever of its calls
fail, and what is seen of them comes in this order.
-/

namespace SchemaSync

open Rows (Query)

variable {σ α β : Type} {conn : Connection σ}

/-! ## Runs that ask -/

namespace Run

variable {calls more : List Call}

/-- The run makes some calls in order; it makes all of them unless it fails. -/
def Asks (conn : Connection σ) (m : Run σ α) (calls : List Call) : Prop :=
  Talks conn m fun es r => es.map Exchange.call <+: calls ∧ ∀ a, r = .ok a → es.map Exchange.call = calls

theorem asks_of_silent {m : Run σ α} (h : Talks conn m fun es _ => es = []) : Asks conn m [] :=
  h.mono fun es _ hes => by simp [hes]

theorem asks_pure (a : α) : Asks conn (pure a) [] := asks_of_silent ((talks_pure a).mono fun _ _ h => h.1)

theorem asks_ofExcept {ε : Type} (wrap : ε → SyncError) (r : Except ε α) : Asks conn (ofExcept wrap r) [] :=
  asks_of_silent (talks_ofExcept wrap r)

theorem asks_log (level : Level) (source : Source) (message : String) : Asks conn (log level source message) [] :=
  asks_of_silent ((talks_log level source message).mono fun _ _ h => h.1)

theorem Asks.bind {m : Run σ α} {f : α → Run σ β} (hm : Asks conn m calls) (hf : ∀ a, Asks conn (f a) more) :
    Asks conn (m >>= f) (calls ++ more) := by
  refine (Talks.bind hm hf).mono ?_
  intro es r h
  rcases h with ⟨e, ⟨hfirst, -⟩, rfl⟩ | ⟨a, first, rest, rfl, ⟨-, hfirst⟩, hrest, hall⟩
  · exact ⟨hfirst.trans (List.prefix_append calls more), fun _ hr => by cases hr⟩
  · rw [List.map_append, hfirst a rfl, List.prefix_append_right_inj]
    exact ⟨hrest, fun b hb => by rw [hall b hb]⟩

/-- The second part asks nothing. -/
theorem Asks.bind_nil {m : Run σ α} {f : α → Run σ β} (hm : Asks conn m calls) (hf : ∀ a, Asks conn (f a) []) :
    Asks conn (m >>= f) calls := List.append_nil calls ▸ hm.bind hf

theorem asks_forM {f : α → Run σ Unit} (h : ∀ a, Asks conn (f a) []) : ∀ as : List α, Asks conn (as.forM f) []
  | [] => asks_pure ()
  | a :: as => (h a).bind_nil fun _ => asks_forM h as

/-- A cursor is closed also when the body fails, so a body that always makes its calls is followed by the closing. -/
theorem Talks.asks_withCursor {body : Run σ α} (h : Talks conn body fun es _ => es.map Exchange.call = calls) :
    Asks conn (Run.withCursor conn body) (.cursor :: calls ++ [.cursorClose]) := by
  refine h.withCursor.mono ?_
  intro es r h
  rcases h with ⟨f, rfl, rfl⟩ | ⟨made, inner, result, closed, rfl, rfl, rfl⟩
  · exact ⟨⟨calls ++ [.cursorClose], rfl⟩, fun _ hr => by cases hr⟩
  · simp

end Run

/-! ## Planning -/

namespace Reading

theorem asks_ask {q : Query} {read : Rows.NamedRow → Rows.Checked α} :
    Run.Asks conn (ask conn q read) (callsOf q) := by
  show Run.Asks conn (Run.withCursor conn _) (.cursor :: [.query q] ++ [.cursorClose])
  apply Run.Talks.asks_withCursor
  refine ((Run.talks_call (.query q)).bind fun answer => Run.talks_ofExcept .row _).mono ?_
  intro es r h
  rcases h with ⟨e, ⟨result, rfl, -⟩, -⟩ | ⟨a, first, rest, rfl, ⟨result, rfl, -⟩, rfl⟩
  · rfl
  · rfl

theorem quiet_ask {q : Query} {read : Rows.NamedRow → Rows.Checked α} : Run.Quiet (ask conn q read) :=
  ((Run.quiet_call (.query q)).bind fun _ => Run.quiet_ofExcept .row _).withCursor

/-- The calls that read a database: each query has a cursor of its own. -/
def queries : List Call := Query.all.flatMap callsOf

theorem asks_answers : Run.Asks conn (answers conn) queries :=
  asks_ask.bind fun _ => asks_ask.bind fun _ => asks_ask.bind_nil fun _ => Run.asks_pure _

theorem quiet_answers : Run.Quiet (answers conn) :=
  quiet_ask.bind fun _ => quiet_ask.bind fun _ => quiet_ask.bind fun _ => Run.quiet_pure _

theorem asks_schema (start : Option String) : Run.Asks conn (schema conn start) queries :=
  asks_answers.bind_nil fun _ => (Run.asks_forM (fun _ => Run.asks_log _ _ _) _).bind_nil fun _ =>
    (Run.asks_ofExcept .edit _).bind_nil fun _ => Run.asks_pure _

theorem quiet_schema (start : Option String) : Run.Quiet (schema conn start) :=
  quiet_answers.bind fun _ => (Run.quiet_forM (fun _ => Run.quiet_log _ (by decide) _) _).bind fun _ =>
    (Run.quiet_ofExcept .edit _).bind fun _ => Run.quiet_pure _

end Reading

namespace Push

variable {models : List Model} {options : PushOptions} {suffixes : Nat → String}

/-- What planning comes to: the first of its stages that fails, or a plan from what was read to what is declared. -/
inductive Planned (conn : Connection σ) (models : List Model) (options : PushOptions) (suffixes : Nat → String)
    (w : World σ) : Except SyncError Plan → Prop
  | unread {e : SyncError} (hread : ((Reading.schema conn options.start).run.run w).1 = .error e) :
      Planned conn models options suffixes w (.error e)
  | undeclared {c : Catalog} {s : SnapshotId} {e : Model.Error}
      (hread : ((Reading.schema conn options.start).run.run w).1 = .ok (c, s))
      (hdeclared : Model.schema options.start models = .error e) :
      Planned conn models options suffixes w (.error (.ofModel e))
  | unplannable {c d : Catalog} {s t : SnapshotId} {e : PlanError}
      (hread : ((Reading.schema conn options.start).run.run w).1 = .ok (c, s))
      (hdeclared : Model.schema options.start models = .ok (d, t))
      (hdiff : Snapshot.diff suffixes (c.snapshot s) (d.snapshot t) options.creationMode = .error e) :
      Planned conn models options suffixes w (.error (.plan e))
  | planned {c d : Catalog} {s t : SnapshotId} {p : Plan}
      (hread : ((Reading.schema conn options.start).run.run w).1 = .ok (c, s))
      (hdeclared : Model.schema options.start models = .ok (d, t))
      (hdiff : Snapshot.diff suffixes (c.snapshot s) (d.snapshot t) options.creationMode = .ok p) :
      Planned conn models options suffixes w (.ok p)

theorem asks_planPush (conn : Connection σ) (models : List Model) (options : PushOptions) (suffixes : Nat → String) :
    Run.Asks conn (planPush conn models options suffixes) Reading.queries :=
  (Reading.asks_schema options.start).bind_nil fun _ => (Run.asks_ofExcept .ofModel _).bind_nil fun _ =>
    (Run.asks_log _ _ _).bind_nil fun _ => Run.asks_ofExcept .plan _

theorem quiet_planPush : Run.Quiet (planPush conn models options suffixes) :=
  (Reading.quiet_schema options.start).bind fun _ => (Run.quiet_ofExcept .ofModel _).bind fun _ =>
    (Run.quiet_log _ (by decide) _).bind fun _ => Run.quiet_ofExcept .plan _

theorem planned_planPush (conn : Connection σ) (models : List Model) (options : PushOptions)
    (suffixes : Nat → String) (w : World σ) :
    Planned conn models options suffixes w ((planPush conn models options suffixes).run.run w).1 := by
  unfold planPush
  rw [Run.run_bind]
  rcases hread : ((Reading.schema conn options.start).run.run w).1 with e | ⟨c, s⟩
  · exact .unread hread
  · rcases hdeclared : Model.schema options.start models with e | ⟨d, t⟩
    · exact .undeclared hread hdeclared
    · show Planned conn models options suffixes w ((Run.log .debug .planning _ >>= fun _ =>
        Run.ofExcept .plan (Snapshot.diff suffixes (c.snapshot s) (d.snapshot t) options.creationMode)).run.run _).1
      rw [Run.run_bind, Run.log, Run.run_record]
      cases hdiff : Snapshot.diff suffixes (c.snapshot s) (d.snapshot t) options.creationMode with
      | error e => exact .unplannable hread hdeclared hdiff
      | ok p => exact .planned hread hdeclared hdiff

/-- A plan that a push makes and that has something to do can be written as statements. -/
theorem Planned.written {w : World σ} {p : Plan} (h : Planned conn models options suffixes w (.ok p))
    (hsome : p.operations ≠ []) : ∃ statements, p.Written statements := by
  cases h with
  | planned _ hdeclared hdiff =>
    obtain ⟨-, hdraws⟩ := Model.draws_schema hdeclared
    obtain ⟨hverified, -⟩ := Model.verify_schema hdeclared
    have hsound := hdraws.wellFormed.linked.snapshot_sound (Snapshot.verify_eq_ok_iff.mp hverified)
    obtain ⟨statements, hstatements⟩ := Snapshot.statements_of_diff hsound hdiff
    exact ⟨statements, Plan.written hsome hstatements⟩

end Push

/-! ## Applying -/

namespace Execution

theorem quiet_runSingle (sql : String) : Run.Quiet (runSingle conn sql) :=
  (Run.quiet_call (.cursorExecute sql)).withCursor

theorem quiet_runAll (sqls : List String) : Run.Quiet (runAll conn sqls) :=
  (Run.quiet_forM (fun sql => (Run.quiet_call (.cursorExecute sql)).bind fun _ => Run.quiet_pure ()) sqls).withCursor

theorem quiet_transact (statements : List String) : Run.Quiet (transact conn statements) := by
  unfold transact
  split
  · exact (Run.quiet_call _).bind fun _ => (Run.quiet_call _).bind fun _ => Run.quiet_pure ()
  · exact (quiet_runAll _).bind fun _ => (Run.quiet_call .commit).bind fun _ => Run.quiet_pure ()

theorem quiet_rollBack : Run.Quiet (rollBack conn) := by
  refine (Run.quiet_call .rollback).attempt.bind fun result => ?_
  cases result with
  | ok _ => exact Run.quiet_pure ()
  | error _ => exact Run.quiet_log _ (by decide) _

theorem quiet_transactOrRollBack (statements : List String) : Run.Quiet (transactOrRollBack conn statements) := by
  refine (quiet_transact statements).attempt.bind fun result => ?_
  cases result with
  | ok _ => exact Run.quiet_pure ()
  | error e => exact quiet_rollBack.bind fun _ => Run.quiet_throw _

theorem quiet_apply (statements : List String) : Run.Quiet (apply conn statements) := by
  unfold apply
  split
  · exact Run.quiet_pure ()
  · exact (Run.quiet_log _ (by decide) _).bind fun _ =>
      ((quiet_runSingle _).bind fun _ => Run.quiet_pure _).bind fun _ =>
        (quiet_transactOrRollBack statements).always ((quiet_runSingle _).bind fun _ => Run.quiet_pure ())

end Execution

/-! ## The whole course -/

namespace Push

def reports (p : Plan) (statements : List String) : List Report :=
  .summary p.summary.describe :: statements.map .statement

/-- The courses that a push can take once it has planned: what is reported, what is exchanged with the connection
after that, and the outcome. -/
inductive Course (scripted dryRun : Bool) :
    Except SyncError Plan → List Report → List Exchange → Except SyncError Plan → Prop
  /-- There is no plan: nothing is reported and nothing is run. -/
  | unplanned (e : SyncError) : Course scripted dryRun (.error e) [] [] (.error e)
  /-- There is nothing to do, and only this is reported. -/
  | unchanged {p : Plan} (hempty : p.operations = []) : Course scripted dryRun (.ok p) [.noChanges] [] (.ok p)
  /-- The statements are reported and none of them is run. -/
  | rehearsed {p : Plan} {statements : List String} (hsome : p.operations ≠ []) (hdry : dryRun = true)
      (hwritten : p.Written statements) : Course scripted dryRun (.ok p) (reports p statements) [] (.ok p)
  /-- The statements are reported, and then the same statements are run, all of them or none. -/
  | applied {p : Plan} {statements : List String} {ran : List Exchange} {outcome : Except SyncError Unit}
      (hsome : p.operations ≠ []) (hdry : dryRun = false) (hwritten : p.Written statements)
      (hrun : Execution.Course scripted statements ran outcome) :
      Course scripted dryRun (.ok p) (reports p statements) ran (outcome.map fun _ => p)

/-- A script that is run holds what was reported: the statements, in the order of their reports. -/
theorem Course.script_told {scripted dryRun : Bool} {planned result : Except SyncError Plan} {told : List Report}
    {ran : List Exchange} (h : Course scripted dryRun planned told ran result) {text : String}
    (htext : Call.executeScript text ∈ ran.map Exchange.call) : ∃ summary statements,
      told = .summary summary :: statements.map .statement ∧ text = Execution.scriptText statements := by
  cases h with
  | unplanned | unchanged | rehearsed => cases htext
  | applied _ _ _ hrun => exact ⟨_, _, rfl, (hrun.eq_scriptText htext).2⟩

variable {reporter : Reporter}

/-- What a push does with its plan: it reports, and applies unless it is a dry run. -/
def settle (conn : Connection σ) (options : PushOptions) (reporter : Reporter) (p : Plan) : Run σ Plan := do
  if p.isEmpty then
    reporter.tell .noChanges
    return p
  reporter.tell (.summary p.summary.describe)
  let statements ← Run.ofExcept .render p.statements
  statements.forM fun sql => reporter.tell (.statement sql)
  if options.dryRun then
    Run.log .info .planning ("Dry run, " ++ statements.length.repr ++ " statements not applied")
  else
    Execution.apply conn statements
  pure p

theorem push_eq (conn : Connection σ) (models : List Model) (options : PushOptions) (reporter : Reporter)
    (suffixes : Nat → String) : push conn models options reporter suffixes =
      planPush conn models options suffixes >>= settle conn options reporter := rfl

/-- A world in which some reports have been told. -/
def afterTelling (reporter : Reporter) (reports : List Report) (w : World σ) : World σ :=
  ⟨w.state, w.trace ++ reports.flatMap reporter.shows⟩

theorem seen_afterTelling (reports : List Report) (w : World σ) :
    (afterTelling reporter reports w).seen = w.seen ++ reports.flatMap reporter.shows := by
  rw [afterTelling, World.seen, List.filter_append, reporter.filter_shows]
  rfl

theorem run_settle_unchanged {p : Plan} (hempty : p.operations = []) (w : World σ) :
    (settle conn options reporter p).run.run w = (.ok p, afterTelling reporter [.noChanges] w) := by
  unfold settle
  rw [if_pos (Plan.isEmpty_iff.mpr hempty), Run.run_bind, Reporter.run_tell, afterTelling, List.flatMap_singleton]
  rfl

/-- All is reported before anything else happens. -/
theorem run_settle {p : Plan} {statements : List String} (hsome : p.operations ≠ [])
    (hwritten : p.statements = .ok statements) (w : World σ) :
    (settle conn options reporter p).run.run w =
      (if options.dryRun then
        Run.log .info .planning ("Dry run, " ++ statements.length.repr ++ " statements not applied") >>= fun _ => pure p
      else Execution.apply conn statements >>= fun _ => pure p).run.run
        (afterTelling reporter (reports p statements) w) := by
  unfold settle
  rw [if_neg (mt Plan.isEmpty_iff.mp hsome), hwritten, Run.run_bind, Reporter.run_tell]
  dsimp only
  rw [Run.ofExcept_ok_bind, Run.run_bind, Reporter.run_forM_tell]
  dsimp only
  rw [List.append_assoc, ← List.flatMap_cons]
  rfl

/-- A plan whose statements can be written is settled by one of the courses. -/
theorem course_settle {p : Plan} (hwritten : p.operations ≠ [] → ∃ statements, p.Written statements) {w w' : World σ}
    {result : Except SyncError Plan} (hrun : (settle conn options reporter p).run.run w = (result, w')) :
    ∃ told ran, Course conn.scripted options.dryRun (.ok p) told ran result ∧ conn.Exchanges w.state ran w'.state ∧
      w'.seen = w.seen ++ told.flatMap reporter.shows ++ ran.map Exchange.event := by
  by_cases hempty : p.operations = []
  · rw [run_settle_unchanged hempty] at hrun
    cases hrun
    refine ⟨[.noChanges], [], .unchanged hempty, rfl, ?_⟩
    rw [seen_afterTelling, List.map_nil, List.append_nil]
  · obtain ⟨statements, hw⟩ := hwritten hempty
    rw [run_settle hempty hw.statements_eq] at hrun
    refine ⟨reports p statements, ?_⟩
    rw [← seen_afterTelling]
    cases hdry : options.dryRun with
    | true =>
      rw [hdry, if_pos rfl] at hrun
      cases hrun
      refine ⟨[], .rehearsed hempty rfl hw, rfl, ?_⟩
      -- All that is left to do is to make a note.
      show ((afterTelling reporter (reports p statements) w).trace ++ [Event.logged ⟨.info, .planning, _⟩]).filter _ = _
      rw [List.filter_append]
      rfl
    | false =>
      rw [hdry, if_neg Bool.false_ne_true] at hrun
      obtain ⟨ran, hran, hseen, outcome, hcourse, hresult⟩ :=
        ((Execution.talks_apply hw.ne_nil).map fun _ => p).seen
          ((Execution.quiet_apply statements).bind fun _ => Run.quiet_pure p)
          (afterTelling reporter (reports p statements) w)
      rw [hrun] at hran hseen hresult
      refine ⟨ran, ?_, hran, hseen⟩
      obtain rfl : result = outcome.map fun _ => p := hresult
      exact .applied hempty rfl hw hcourse

end Push

/-- **A push runs what it reported**: on every connection, whichever of its calls fail, and for all declarations and
options, a push takes one of the courses of `Push.Course`. First the catalog queries are asked, all of them if there
is a plan, then everything is reported, and only then is anything run. Where the statements are run as one script, its
text is made of the statements that were reported. -/
theorem push_in_order (conn : Connection σ) (models : List Model) (options : PushOptions) (reporter : Reporter)
    (suffixes : Nat → String) (w : World σ) : ∃ result w' planned asked told ran,
      (push conn models options reporter suffixes).run.run w = (result, w') ∧
      Push.Planned conn models options suffixes w planned ∧
      asked.map Exchange.call <+: Reading.queries ∧
      (∀ p, planned = .ok p → asked.map Exchange.call = Reading.queries) ∧
      Push.Course conn.scripted options.dryRun planned told ran result ∧
      (∀ text, Call.executeScript text ∈ ran.map Exchange.call → ∃ summary statements,
        told = .summary summary :: statements.map .statement ∧ text = Execution.scriptText statements) ∧
      conn.Exchanges w.state (asked ++ ran) w'.state ∧
      w'.seen = w.seen ++ asked.map Exchange.event ++ told.flatMap reporter.shows ++ ran.map Exchange.event := by
  have hplanned := Push.planned_planPush conn models options suffixes w
  obtain ⟨asked, hasked, hseen, hprefix, hall⟩ :=
    (Push.asks_planPush conn models options suffixes).seen Push.quiet_planPush w
  rw [Push.push_eq, Run.run_bind]
  rcases hrun : (planPush conn models options suffixes).run.run w with ⟨e | p, v⟩
  · rw [hrun] at hasked hseen hplanned
    refine ⟨.error e, v, .error e, asked, [], [], rfl, hplanned, hprefix, ?_, .unplanned e, ?_, ?_, ?_⟩
    · rintro p ⟨⟩
    · rintro text ⟨⟩
    · rwa [List.append_nil]
    · simpa using hseen
  · rw [hrun] at hasked hseen hplanned hall
    obtain ⟨told, ran, hcourse, hran, hlast⟩ := Push.course_settle (w := v) hplanned.written rfl
    refine ⟨_, _, .ok p, asked, told, ran, rfl, hplanned, hprefix, fun q _ => hall p rfl, hcourse,
      fun _ => hcourse.script_told, hasked.append hran, ?_⟩
    rw [hlast, hseen]

end SchemaSync
