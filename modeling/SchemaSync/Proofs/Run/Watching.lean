import SchemaSync.Proofs.Run.Exchanges
import SchemaSync.Push

/-!
# What is seen of a run

Two parties outside a push see what it does: the connection gets the calls and the reporter gets the reports. The
trace holds both in one order, between the notes that the push makes in its own log. What is left of a trace
without these notes is what is seen (`World.seen`). A run that makes only calls and notes is quiet, and what is seen
of it are its exchanges (`Run.Talks.seen`); telling a reporter shows what this reporter makes of the report, the same
wherever it is told (`Reporter.run_tell`).
-/

namespace SchemaSync

variable {σ α β : Type} {conn : Connection σ}

/-! ## Notes -/

namespace Event

/-- A note in a push's own log; what a reporter writes to the log is none. -/
def isNote : Event → Bool
  | logged entry => entry.source != .reporting
  | _ => false

def call? : Event → Option Call
  | called c => some c
  | _ => none

def IsQuiet (e : Event) : Prop := (∃ c, e = called c) ∨ e.isNote = true

theorem call?_of_isNote {e : Event} (h : e.isNote = true) : e.call? = none := by
  cases e with
  | called c => cases h
  | logged _ | reported _ | opened _ | printed _ | complained _ => rfl

/-- Without its notes, a quiet list of events is a list of calls. -/
theorem filter_of_isQuiet {events : List Event} (h : ∀ e ∈ events, e.IsQuiet) :
    events.filter (fun e => !e.isNote) = (events.filterMap call?).map called := by
  induction events with
  | nil => rfl
  | cons e events ih =>
    obtain ⟨he, hrest⟩ := List.forall_mem_cons.mp h
    rcases he with ⟨c, rfl⟩ | hnote
    · have hcall : (called c).call? = some c := rfl
      rw [List.filter_cons_of_pos rfl, List.filterMap_cons_some hcall, List.map_cons, ih hrest]
    · rw [List.filter_cons_of_neg (by simp [hnote]), List.filterMap_cons_none (call?_of_isNote hnote), ih hrest]

end Event

def Exchange.event (e : Exchange) : Event := .called e.call

namespace World

variable {w v u : World σ}

/-- What is seen of a run so far. -/
def seen (w : World σ) : List Event := w.trace.filter fun e => !e.isNote

/-- Only calls and notes lead from one world to another. -/
def QuietlyTo (w v : World σ) : Prop := ∃ events, v.trace = w.trace ++ events ∧ ∀ e ∈ events, e.IsQuiet

theorem quietlyTo_of_trace_eq (h : v.trace = w.trace) : w.QuietlyTo v := ⟨[], by rw [h, List.append_nil], by simp⟩

theorem quietlyTo_of_trace_eq_append {e : Event} (h : v.trace = w.trace ++ [e]) (he : e.IsQuiet) : w.QuietlyTo v :=
  ⟨[e], h, by simpa using he⟩

theorem QuietlyTo.trans (h : w.QuietlyTo v) (hmore : v.QuietlyTo u) : w.QuietlyTo u := by
  obtain ⟨first, hfirst, hall⟩ := h
  obtain ⟨rest, hrest, hmore⟩ := hmore
  refine ⟨first ++ rest, by rw [hrest, hfirst, List.append_assoc], ?_⟩
  intro e he
  exact (List.mem_append.mp he).elim (hall e) (hmore e)

/-- What is newly seen are the calls. -/
theorem QuietlyTo.seen_eq (h : w.QuietlyTo v) {cs : List Call} (hcalls : v.calls = w.calls ++ cs) :
    v.seen = w.seen ++ cs.map .called := by
  obtain ⟨events, htrace, hquiet⟩ := h
  have hnew : events.filterMap Event.call? = cs := by
    rw [World.calls, World.calls, htrace, List.filterMap_append] at hcalls
    exact List.append_cancel_left hcalls
  rw [seen, seen, htrace, List.filter_append, Event.filter_of_isQuiet hquiet, hnew]

end World

/-! ## Quiet runs -/

namespace Run

/-- A run that only makes calls and notes. -/
def Quiet (m : Run σ α) : Prop := ∀ w : World σ, w.QuietlyTo (m.run.run w).2

theorem quiet_pure (a : α) : Quiet (pure a : Run σ α) := fun _ => World.quietlyTo_of_trace_eq rfl

theorem quiet_throw (e : SyncError) : Quiet (throw e : Run σ α) := fun _ => World.quietlyTo_of_trace_eq rfl

theorem quiet_ofExcept {ε : Type} (wrap : ε → SyncError) (r : Except ε α) : Quiet (ofExcept wrap r : Run σ α) := by
  cases r with
  | ok a => exact quiet_pure a
  | error e => exact quiet_throw (wrap e)

theorem quiet_log (level : Level) {source : Source} (h : source ≠ .reporting) (message : String) :
    Quiet (log level source message : Run σ Unit) := by
  have hnote : (Event.logged ⟨level, source, message⟩).isNote = true := bne_iff_ne.mpr h
  exact fun _ => World.quietlyTo_of_trace_eq_append rfl (.inr hnote)

theorem quiet_call (c : Call) : Quiet (call conn c) := fun _ =>
  World.quietlyTo_of_trace_eq_append rfl (Or.inl ⟨c, rfl⟩)

theorem Quiet.bind {m : Run σ α} {f : α → Run σ β} (hm : Quiet m) (hf : ∀ a, Quiet (f a)) : Quiet (m >>= f) := by
  intro w
  rw [run_bind]
  cases (m.run.run w).1 with
  | error e => exact hm w
  | ok a => exact (hm w).trans (hf a (m.run.run w).2)

theorem Quiet.always {body : Run σ α} {cleanup : Run σ Unit} (hbody : Quiet body) (hcleanup : Quiet cleanup) :
    Quiet (always body cleanup) := by
  intro w
  rw [world_always]
  exact (hbody w).trans (hcleanup (body.run.run w).2)

theorem Quiet.attempt {body : Run σ α} (h : Quiet body) : Quiet (attempt body) := h

theorem Quiet.withCursor {body : Run σ α} (h : Quiet body) : Quiet (withCursor conn body) :=
  (quiet_call .cursor).bind fun _ => h.always ((quiet_call .cursorClose).bind fun _ => quiet_pure ())

theorem quiet_forM {f : α → Run σ Unit} (h : ∀ a, Quiet (f a)) : ∀ as : List α, Quiet (as.forM f)
  | [] => quiet_pure ()
  | a :: as => (h a).bind fun _ => quiet_forM h as

/-- What is seen of a quiet run are the exchanges with its connection. -/
theorem Talks.seen {m : Run σ α} {P : List Exchange → Except SyncError α → Prop} (h : Talks conn m P) (hm : Quiet m)
    (w : World σ) : ∃ es, conn.Exchanges w.state es (m.run.run w).2.state ∧
      (m.run.run w).2.seen = w.seen ++ es.map Exchange.event ∧ P es (m.run.run w).1 := by
  obtain ⟨es, hes, hcalls, hP⟩ := h w
  refine ⟨es, hes, ?_, hP⟩
  rw [(hm w).seen_eq hcalls, List.map_map]
  rfl

end Run

/-! ## Reporters -/

namespace Reporter

variable {r : Reporter} {report : Report}

def shows : Reporter → Report → List Event
  | recording, report => [.reported report]
  | silent, _ => []
  | logging, .noChanges => [.logged ⟨.info, .reporting, "No changes to apply"⟩]
  | logging, .summary text => (Text.Lines.lines text).map fun line => .logged ⟨.info, .reporting, line⟩
  | logging, .statement sql => [.logged ⟨.info, .reporting, sql⟩]
  | terminal, .noChanges => [.printed (Run.lineText "No changes to apply.")]
  | terminal, .summary text => [.printed (Run.lineText text), .printed (Run.lineText "")]
  | terminal, .statement sql => [.printed (Run.lineText (sql ++ ";"))]

/-- Telling a reporter never fails and leaves the connection alone. -/
theorem run_tell (r : Reporter) (report : Report) (w : World σ) :
    (r.tell report : Run σ Unit).run.run w = (.ok (), ⟨w.state, w.trace ++ r.shows report⟩) := by
  cases r with
  | recording => rfl
  | silent =>
    show (Except.ok (), w) = (Except.ok (), (⟨w.state, w.trace ++ []⟩ : World σ))
    simp
  | logging =>
    cases report with
    | noChanges => rfl
    | statement sql => rfl
    | summary text =>
      exact Run.run_forM_record (fun line => .logged ⟨.info, .reporting, line⟩) (Text.Lines.lines text) w
  | terminal =>
    cases report with
    | noChanges => rfl
    | statement sql => rfl
    | summary text =>
      show (Except.ok (), (⟨w.state, w.trace ++ [_] ++ [_]⟩ : World σ)) = _
      rw [List.append_assoc]
      rfl

/-- Many reports, one after the other. -/
theorem run_forM_tell (r : Reporter) (f : α → Report) (as : List α) (w : World σ) :
    ((as.forM fun a => r.tell (f a)) : Run σ Unit).run.run w =
      (.ok (), ⟨w.state, w.trace ++ (as.map f).flatMap r.shows⟩) := by
  induction as generalizing w with
  | nil =>
    show (Except.ok (), w) = _
    simp
  | cons a as ih =>
    show (r.tell (f a) >>= fun _ => as.forM fun a => r.tell (f a)).run.run w = _
    rw [Run.run_bind, run_tell]
    dsimp only
    rw [ih, List.append_assoc, List.map_cons, List.flatMap_cons]

/-- What a reporter makes of a report is no note. -/
theorem isNote_of_mem_shows {e : Event} (h : e ∈ r.shows report) : e.isNote = false := by
  cases r with
  | recording =>
    rw [List.mem_singleton.mp h]
    rfl
  | silent => cases h
  | logging =>
    cases report with
    | noChanges | statement sql =>
      rw [List.mem_singleton.mp h]
      rfl
    | summary text =>
      obtain ⟨line, -, rfl⟩ := List.mem_map.mp h
      rfl
  | terminal =>
    cases report with
    | noChanges | statement sql =>
      rw [List.mem_singleton.mp h]
      rfl
    | summary text =>
      simp only [shows, List.mem_cons, List.not_mem_nil, or_false] at h
      rcases h with rfl | rfl <;> rfl

/-- All that a reporter makes of some reports is seen. -/
theorem filter_shows (r : Reporter) (reports : List Report) :
    (reports.flatMap r.shows).filter (fun e => !e.isNote) = reports.flatMap r.shows := by
  rw [List.filter_eq_self]
  intro e he
  obtain ⟨report, -, hmem⟩ := List.mem_flatMap.mp he
  rw [isNote_of_mem_shows hmem]
  rfl

end Reporter
end SchemaSync
