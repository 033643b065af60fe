import SchemaSync.Run

/-!
# What a run exchanges with its connection

A trace lists the calls of a run, but not which of them failed. An exchange is a call together with what
came of it, and `Run.Talks` says of a run which exchanges it can have and what it ends with, for every
connection state that it can start in. There is one lemma for each way in which runs are put together,
so what a longer run exchanges follows from what its parts do.
-/

namespace SchemaSync

/-- A call on a connection and what came of it. -/
structure Exchange where
  call : Call
  result : Except DriverFault Answer

def Exchange.fault? (e : Exchange) : Option DriverFault :=
  match e.result with
  | .ok _ => none
  | .error f => some f

/-- Exchanges lead a connection from one state to another: every call is answered as recorded. -/
def Connection.Exchanges {σ : Type} (conn : Connection σ) : σ → List Exchange → σ → Prop
  | s, [], t => t = s
  | s, e :: es, t => ∃ r, conn.call e.call s = (e.result, r) ∧ conn.Exchanges r es t

theorem Connection.Exchanges.append {σ : Type} {conn : Connection σ} {es more : List Exchange}
    {s r t : σ} (h : conn.Exchanges s es r) (hmore : conn.Exchanges r more t) :
    conn.Exchanges s (es ++ more) t := by
  induction es generalizing s with
  | nil =>
      obtain rfl : r = s := h
      exact hmore
  | cons e es ih =>
      obtain ⟨q, hcall, hrest⟩ := h
      exact ⟨q, hcall, ih hrest⟩

def World.calls {σ : Type} (w : World σ) : List Call :=
  w.trace.filterMap fun
    | .called c => some c
    | _ => none

namespace Run

variable {σ α β : Type} {conn : Connection σ}

/-- A run in two parts ends after the first part if that fails. -/
theorem run_bind (m : Run σ α) (f : α → Run σ β) (w : World σ) :
    (m >>= f).run.run w = match (m.run.run w).1 with
      | .ok a => (f a).run.run (m.run.run w).2
      | .error e => (.error e, (m.run.run w).2) := by
  rw [ExceptT.run_bind, StateT.run_bind]
  rcases m.run.run w with ⟨_ | _, _⟩ <;> rfl

theorem ofExcept_ok_bind {ε : Type} (wrap : ε → SyncError) (a : α) (f : α → Run σ β) :
    ofExcept wrap (.ok a) >>= f = f a := rfl

theorem run_call (c : Call) (w : World σ) :
    (call conn c).run.run w =
      ((conn.call c w.state).1.mapError .driver, ⟨(conn.call c w.state).2, w.trace ++ [.called c]⟩) := rfl

/-- A clean-up that fails replaces the outcome of the body. -/
theorem run_always (body : Run σ α) (cleanup : Run σ Unit) (w : World σ) :
    (always body cleanup).run.run w = match (cleanup.run.run (body.run.run w).2).1 with
      | .ok _ => ((body.run.run w).1, (cleanup.run.run (body.run.run w).2).2)
      | .error e => (.error e, (cleanup.run.run (body.run.run w).2).2) := rfl

/-- Recording an event for each member of a list leaves the connection alone. -/
theorem run_forM_record (f : α → Event) (as : List α) (w : World σ) :
    ((as.forM fun a => record (f a)) : Run σ Unit).run.run w = (.ok (), ⟨w.state, w.trace ++ as.map f⟩) := by
  induction as generalizing w with
  | nil =>
      rw [List.map_nil, List.append_nil]
      rfl
  | cons a as ih =>
      show (record (f a) >>= fun _ => as.forM fun a => record (f a)).run.run w = _
      rw [run_bind, run_record]
      dsimp only
      rw [ih, List.append_assoc, List.map_cons]
      rfl

/-- In every world the run makes the calls of some exchanges with the connection and no others, and `P`
holds of these exchanges and of the outcome. -/
def Talks (conn : Connection σ) (m : Run σ α) (P : List Exchange → Except SyncError α → Prop) :
    Prop :=
  ∀ w, ∃ es, conn.Exchanges w.state es (m.run.run w).2.state ∧
    (m.run.run w).2.calls = w.calls ++ es.map Exchange.call ∧ P es (m.run.run w).1

theorem Talks.mono {m : Run σ α} {P Q : List Exchange → Except SyncError α → Prop}
    (h : Talks conn m P) (hPQ : ∀ es r, P es r → Q es r) : Talks conn m Q := by
  intro w
  obtain ⟨es, hes, hcalls, hP⟩ := h w
  exact ⟨es, hes, hcalls, hPQ es _ hP⟩

theorem talks_pure (a : α) : Talks conn (pure a) fun es r => es = [] ∧ r = .ok a := by
  intro w
  exact ⟨[], rfl, (List.append_nil _).symm, rfl, rfl⟩

theorem talks_throw (e : SyncError) :
    Talks conn (throw e : Run σ α) fun es r => es = [] ∧ r = .error e := by
  intro w
  exact ⟨[], rfl, (List.append_nil _).symm, rfl, rfl⟩

theorem talks_ofExcept {ε : Type} (wrap : ε → SyncError) (r : Except ε α) :
    Talks conn (ofExcept wrap r) fun es _ => es = [] := by
  cases r with
  | ok a => exact (talks_pure a).mono fun _ _ h => h.1
  | error e => exact (talks_throw (wrap e)).mono fun _ _ h => h.1

/-- Logging is no call. -/
theorem talks_log (level : Level) (source : Source) (message : String) :
    Talks conn (log level source message) fun es r => es = [] ∧ r = .ok () := by
  intro w
  refine ⟨[], rfl, ?_, rfl, rfl⟩
  rw [log, run_record, World.calls, List.filterMap_append]
  rfl

theorem talks_call (c : Call) : Talks conn (call conn c) fun es r =>
    ∃ result, es = [⟨c, result⟩] ∧ r = result.mapError .driver := by
  intro w
  refine ⟨[⟨c, (conn.call c w.state).1⟩], ⟨_, rfl, rfl⟩, ?_, _, rfl, rfl⟩
  exact List.filterMap_append

/-- The first part ends the run if it fails. -/
theorem Talks.bind {m : Run σ α} {f : α → Run σ β} {P : List Exchange → Except SyncError α → Prop}
    {Q : α → List Exchange → Except SyncError β → Prop} (hm : Talks conn m P)
    (hf : ∀ a, Talks conn (f a) (Q a)) : Talks conn (m >>= f) fun es r =>
      (∃ e, P es (.error e) ∧ r = .error e) ∨
        ∃ a first rest, es = first ++ rest ∧ P first (.ok a) ∧ Q a rest r := by
  intro w
  obtain ⟨first, hfirst, hcalls, hP⟩ := hm w
  rw [run_bind]
  cases hr : (m.run.run w).1 with
  | error e => exact ⟨first, hfirst, hcalls, Or.inl ⟨e, hr ▸ hP, rfl⟩⟩
  | ok a =>
      obtain ⟨rest, hrest, hcalls', hQ⟩ := hf a (m.run.run w).2
      refine ⟨first ++ rest, hfirst.append hrest, ?_, Or.inr ⟨a, first, rest, rfl, hr ▸ hP, hQ⟩⟩
      show ((f a).run.run (m.run.run w).2).2.calls = _
      rw [hcalls', hcalls, List.map_append, List.append_assoc]

theorem Talks.map {m : Run σ α} {P : List Exchange → Except SyncError α → Prop} (h : Talks conn m P)
    (g : α → β) : Talks conn (m >>= fun a => pure (g a)) fun es r => ∃ x, P es x ∧ r = x.map g := by
  refine (h.bind fun a => talks_pure (g a)).mono ?_
  intro es r h
  rcases h with ⟨e, hP, rfl⟩ | ⟨a, first, rest, rfl, hP, rfl, rfl⟩
  · exact ⟨.error e, hP, rfl⟩
  · rw [List.append_nil]
    exact ⟨.ok a, hP, rfl⟩

/-- The clean-up follows in any case, and its error is the outcome if it fails. -/
theorem Talks.always {body : Run σ α} {cleanup : Run σ Unit}
    {P : List Exchange → Except SyncError α → Prop} {Q : List Exchange → Except SyncError Unit → Prop}
    (hbody : Talks conn body P) (hcleanup : Talks conn cleanup Q) :
    Talks conn (always body cleanup) fun es r => ∃ result cleaned first rest, es = first ++ rest ∧
      P first result ∧ Q rest cleaned ∧ r = cleaned.bind fun _ => result := by
  intro w
  obtain ⟨first, hfirst, hcalls, hP⟩ := hbody w
  obtain ⟨rest, hrest, hcalls', hQ⟩ := hcleanup (body.run.run w).2
  refine ⟨first ++ rest, ?_, ?_, _, _, first, rest, rfl, hP, hQ, ?_⟩
  · rw [world_always]
    exact hfirst.append hrest
  · rw [world_always, hcalls', hcalls, List.map_append, List.append_assoc]
  · rw [run_always]
    cases (cleanup.run.run (body.run.run w).2).1 <;> rfl

theorem Talks.attempt {body : Run σ α} {P : List Exchange → Except SyncError α → Prop}
    (h : Talks conn body P) :
    Talks conn (attempt body) fun es r => ∃ result, P es result ∧ r = .ok result := by
  intro w
  obtain ⟨es, hes, hcalls, hP⟩ := h w
  exact ⟨es, hes, hcalls, _, hP, rfl⟩

/-- A cursor is made and closed around the body; there is no body if none can be made. -/
theorem Talks.withCursor {body : Run σ α} {P : List Exchange → Except SyncError α → Prop}
    (h : Talks conn body P) : Talks conn (withCursor conn body) fun es r =>
      (∃ f, es = [⟨.cursor, .error f⟩] ∧ r = .error (.driver f)) ∨
        ∃ made inner result closed, es = ⟨.cursor, .ok made⟩ :: inner ++ [⟨.cursorClose, closed⟩] ∧
          P inner result ∧ r = (closed.mapError .driver).bind fun _ => result := by
  have hclose : Talks conn (call conn .cursorClose >>= fun _ => pure ()) _ :=
    (talks_call .cursorClose).map fun _ => ()
  refine ((talks_call .cursor).bind fun _ => h.always hclose).mono ?_
  intro es r h
  rcases h with ⟨e, ⟨made, rfl, hmade⟩, rfl⟩ |
    ⟨a, first, rest, rfl, ⟨made, rfl, hmade⟩, result, cleaned, inner, last, rfl, hP,
      ⟨_, ⟨closed, rfl, rfl⟩, rfl⟩, rfl⟩
  · cases made with
    | error f =>
        cases hmade
        exact Or.inl ⟨f, rfl, rfl⟩
    | ok answer => cases hmade
  · cases made with
    | error f => cases hmade
    | ok answer =>
        refine Or.inr ⟨answer, inner, result, closed, rfl, hP, ?_⟩
        cases closed <;> rfl

end Run
end SchemaSync
