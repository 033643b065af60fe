import Mathlib.Data.List.Forall2
import Mathlib.Logic.Relation

/-!
# Steps that track a relation

A step that may fail works on a state of which only a view matters. It leads by a relation if each success of
it moves the view by the relation (`Leads`), and it tracks the relation if it succeeds wherever the relation
moves the view as well (`Tracks`). How a state is viewed after the step may depend on the result, as where a
step hands back the handle of what it has made.

So the relation says all there is to say of the successes of a step, and a loop is a chain of moves
(`Moves`), away from the state and from the errors.
-/

namespace SchemaSync

variable {ε σ τ α β γ : Type}

/-! ## Lists of results -/

section
variable {R : α → β → Prop} {gs : List α} {os : List β}

theorem exists_forall₂ (h : ∀ g ∈ gs, ∃ o, R g o) : ∃ os, List.Forall₂ R gs os := by
  induction gs with
  | nil => exact ⟨[], .nil⟩
  | cons g gs ih =>
      obtain ⟨⟨o, ho⟩, hrest⟩ := List.forall_mem_cons.mp h
      obtain ⟨os, hos⟩ := ih hrest
      exact ⟨o :: os, .cons ho hos⟩

theorem exists_mem_of_forall₂ (h : List.Forall₂ R gs os) : ∀ o ∈ os, ∃ g ∈ gs, R g o := by
  induction h with
  | nil => exact fun o ho => absurd ho List.not_mem_nil
  | cons hfirst _ ih =>
      refine List.forall_mem_cons.mpr ⟨⟨_, List.mem_cons_self, hfirst⟩, fun o ho => ?_⟩
      obtain ⟨g, hg, hR⟩ := ih o ho
      exact ⟨g, List.mem_cons_of_mem _ hg, hR⟩

end

/-! ## Steps -/

/-- The result of a step on a state, and the state that it leaves. -/
def outcomeOf (a : ExceptT ε (StateM σ) α) (x : σ) : Except ε α × σ := a.run.run x

theorem outcomeOf_bind (a : ExceptT ε (StateM σ) α) (f : α → ExceptT ε (StateM σ) β) (x : σ) :
    outcomeOf (a >>= f) x = match outcomeOf a x with
      | (.ok v, y) => outcomeOf (f v) y
      | (.error e, y) => (.error e, y) := by
  show (let p := a.run.run x; (ExceptT.bindCont f p.1).run p.2) = _
  rw [outcomeOf]
  rcases a.run.run x with ⟨e | v, y⟩ <;> rfl

theorem outcomeOf_bind_eq_ok_iff {a : ExceptT ε (StateM σ) α} {f : α → ExceptT ε (StateM σ) β} {x y : σ}
    {w : β} : outcomeOf (a >>= f) x = (.ok w, y) ↔
      ∃ v z, outcomeOf a x = (.ok v, z) ∧ outcomeOf (f v) z = (.ok w, y) := by
  rw [outcomeOf_bind]
  rcases outcomeOf a x with ⟨e | v, z⟩
  · simp
  · constructor
    · intro h
      exact ⟨v, z, rfl, h⟩
    · rintro ⟨u, z', heq, h⟩
      cases heq
      exact h

/-- Every success of the step moves the view by the relation. -/
def Leads (pre : σ → τ → Prop) (a : ExceptT ε (StateM σ) α) (R : τ → τ → Prop)
    (post : α → σ → τ → Prop) : Prop :=
  ∀ x m, pre x m → ∀ v y, outcomeOf a x = (.ok v, y) → ∃ n, R m n ∧ post v y n

/-- The successes of the step are exactly the moves of the relation. -/
structure Tracks (pre : σ → τ → Prop) (a : ExceptT ε (StateM σ) α) (R : τ → τ → Prop)
    (post : α → σ → τ → Prop) : Prop where
  leads : Leads pre a R post
  allows : ∀ x m n, pre x m → R m n → ∃ v y, outcomeOf a x = (.ok v, y) ∧ post v y n

/-- Moves by the relations of the members of a list, one after the other. -/
def Moves (R : γ → τ → τ → Prop) : List γ → τ → τ → Prop
  | [], m, n => n = m
  | g :: gs, m, n => ∃ k, R g m k ∧ Moves R gs k n

variable {view pre : σ → τ → Prop} {a : ExceptT ε (StateM σ) α} {f : α → ExceptT ε (StateM σ) β}
  {R Q : τ → τ → Prop} {mid other : α → σ → τ → Prop} {post : β → σ → τ → Prop}

/-! ## Leading -/

/-- What holds of fewer states leads on there as well. -/
theorem Leads.restrict (h : Leads pre a R mid) (hpre : ∀ x m, view x m → pre x m) : Leads view a R mid :=
  fun x m hx => h x m (hpre x m hx)

theorem leads_pure (v : α) :
    Leads view (pure v : ExceptT ε (StateM σ) α) (fun m n => n = m) fun _ => view := by
  rintro x m hx w y ⟨⟩
  exact ⟨m, rfl, hx⟩

theorem Leads.bind (ha : Leads pre a R mid) (hf : ∀ v, Leads (mid v) (f v) Q post) :
    Leads pre (a >>= f) (Relation.Comp R Q) post := by
  intro x m hx w y hy
  obtain ⟨v, z, hv, hw⟩ := outcomeOf_bind_eq_ok_iff.mp hy
  obtain ⟨k, hk, hview⟩ := ha x m hx v z hv
  obtain ⟨n, hn, hviewed⟩ := hf v z k hview w y hw
  exact ⟨n, ⟨k, hk, hn⟩, hviewed⟩

/-! ## Tracking -/

theorem Tracks.congr (h : Tracks pre a R mid) (hRQ : ∀ x m n, pre x m → (R m n ↔ Q m n))
    (hpost : ∀ v y n, mid v y n → other v y n) : Tracks pre a Q other where
  leads := by
    intro x m hx v y hv
    obtain ⟨n, hn, hview⟩ := h.leads x m hx v y hv
    exact ⟨n, (hRQ x m n hx).mp hn, hpost v y n hview⟩
  allows := by
    intro x m n hx hQ
    obtain ⟨v, y, hv, hview⟩ := h.allows x m n hx ((hRQ x m n hx).mpr hQ)
    exact ⟨v, y, hv, hpost v y n hview⟩

theorem tracks_pure (v : α) :
    Tracks view (pure v : ExceptT ε (StateM σ) α) (fun m n => n = m) fun _ => view where
  leads := leads_pure v
  allows := by
    rintro x m n hx rfl
    exact ⟨v, x, rfl, hx⟩

theorem Tracks.bind (ha : Tracks pre a R mid) (hf : ∀ v, Tracks (mid v) (f v) Q post) :
    Tracks pre (a >>= f) (Relation.Comp R Q) post where
  leads := ha.leads.bind fun v => (hf v).leads
  allows := by
    rintro x m n hx ⟨k, hk, hn⟩
    obtain ⟨v, z, hv, hview⟩ := ha.allows x m k hx hk
    obtain ⟨w, y, hw, hviewed⟩ := (hf v).allows z k n hview hn
    exact ⟨w, y, outcomeOf_bind_eq_ok_iff.mpr ⟨v, z, hv, hw⟩, hviewed⟩

/-- The result of a step may be forgotten. -/
theorem Tracks.discard (h : Tracks pre a R fun _ => view) :
    Tracks pre (do let _ ← a; pure ()) R fun _ => view :=
  (h.bind fun _ => tracks_pure ()).congr (fun _ m n _ => by
    constructor
    · rintro ⟨k, hk, rfl⟩
      exact hk
    · exact fun hn => ⟨n, hn, rfl⟩) fun _ _ _ => id

/-- A computation without a state may come first. -/
theorem Tracks.of_except {e : Except ε α} {R : α → τ → τ → Prop}
    (h : ∀ v, e = .ok v → Tracks pre (f v) (R v) post) :
    Tracks pre (do f (← liftM e)) (fun m n => ∃ v, e = .ok v ∧ R v m n) post := by
  cases e with
  | error x =>
      refine ⟨?_, ?_⟩
      · rintro x m hx v y ⟨⟩
      · rintro x m n hx ⟨v, ⟨⟩, -⟩
  | ok v =>
      have hv := h v rfl
      refine ⟨fun x m hx w y hw => ?_, ?_⟩
      · obtain ⟨n, hn, hview⟩ := hv.leads x m hx w y hw
        exact ⟨n, ⟨v, rfl, hn⟩, hview⟩
      · rintro x m n hx ⟨w, hw, hn⟩
        cases hw
        exact hv.allows x m n hx hn

/-- The state may be looked at first. -/
theorem Tracks.get_bind {f : σ → ExceptT ε (StateM σ) β}
    (h : ∀ x, Tracks (fun y m => pre y m ∧ y = x) (f x) R post) : Tracks pre (get >>= f) R post where
  leads := fun x m hx => (h x).leads x m ⟨hx, rfl⟩
  allows := fun x m n hx => (h x).allows x m n ⟨hx, rfl⟩

/-- A step may be looked at on one state and one view of it. -/
theorem Tracks.of_point (h : ∀ x m, pre x m → Tracks (fun y k => y = x ∧ k = m) a R mid) :
    Tracks pre a R mid where
  leads := fun x m hx => (h x m hx).leads x m ⟨rfl, rfl⟩
  allows := fun x m n hx => (h x m hx).allows x m n ⟨rfl, rfl⟩

/-- What is tracked on some states is tracked on fewer. -/
theorem Tracks.restrict (h : Tracks pre a R mid) (hpre : ∀ x m, view x m → pre x m) :
    Tracks view a R mid where
  leads := h.leads.restrict hpre
  allows := fun x m n hx => h.allows x m n (hpre x m hx)

theorem Tracks.forM {step : γ → ExceptT ε (StateM σ) Unit} {R : γ → τ → τ → Prop} :
    ∀ {gs : List γ}, (∀ g ∈ gs, Tracks view (step g) (R g) fun _ => view) →
      Tracks view (gs.forM step) (Moves R gs) fun _ => view
  | [], _ => tracks_pure ()
  | g :: gs, h => by
    obtain ⟨hg, hgs⟩ := List.forall_mem_cons.mp h
    exact hg.bind fun _ => Tracks.forM hgs

/-! ## Moves -/

theorem moves_singleton (R : γ → τ → τ → Prop) (g : γ) : Moves R [g] = R g := by
  funext m n
  apply propext
  constructor
  · rintro ⟨k, hk, rfl⟩
    exact hk
  · exact fun h => ⟨n, h, rfl⟩

theorem moves_append (R : γ → τ → τ → Prop) (gs hs : List γ) :
    Moves R (gs ++ hs) = Relation.Comp (Moves R gs) (Moves R hs) := by
  funext m n
  apply propext
  induction gs generalizing m with
  | nil =>
      constructor
      · exact fun h => ⟨m, rfl, h⟩
      · rintro ⟨k, rfl, h⟩
        exact h
  | cons g gs ih =>
      constructor
      · rintro ⟨k, hk, hrest⟩
        obtain ⟨l, hl, hn⟩ := (ih k).mp hrest
        exact ⟨l, ⟨k, hk, hl⟩, hn⟩
      · rintro ⟨l, ⟨k, hk, hl⟩, hn⟩
        exact ⟨k, hk, (ih k).mpr ⟨l, hl, hn⟩⟩

theorem moves_map {δ : Type} (R : δ → τ → τ → Prop) (f : γ → δ) (gs : List γ) :
    Moves R (gs.map f) = Moves (fun g => R (f g)) gs := by
  funext m n
  apply propext
  induction gs generalizing m with
  | nil => exact Iff.rfl
  | cons g gs ih => exact exists_congr fun k => and_congr_right fun _ => ih k

theorem moves_flatMap {δ : Type} (R : δ → τ → τ → Prop) (f : γ → List δ) (gs : List γ) :
    Moves R (gs.flatMap f) = Moves (fun g => Moves R (f g)) gs := by
  funext m n
  apply propext
  induction gs generalizing m with
  | nil => exact Iff.rfl
  | cons g gs ih =>
      rw [List.flatMap_cons, moves_append]
      exact exists_congr fun k => and_congr_right fun _ => ih k

/-- Where each move changes a part of the view in its own way, the moves of a list change it one after the other. -/
theorem Moves.foldl_eq {δ : Type} {R : γ → τ → τ → Prop} {gs : List γ} {m n : τ} (f : τ → δ) (step : δ → γ → δ)
    (hstep : ∀ g ∈ gs, ∀ m n, R g m n → f n = step (f m) g) (h : Moves R gs m n) : f n = gs.foldl step (f m) := by
  induction gs generalizing m with
  | nil =>
      obtain rfl : n = m := h
      rfl
  | cons g gs ih =>
      obtain ⟨k, hk, hrest⟩ := h
      obtain ⟨hg, hgs⟩ := List.forall_mem_cons.mp hstep
      rw [ih hgs hrest, hg m k hk, List.foldl_cons]

/-- What no move of a list changes is as it was after all of them. -/
theorem Moves.field_eq {δ : Type} {R : γ → τ → τ → Prop} {gs : List γ} {m n : τ} (f : τ → δ)
    (hstep : ∀ g ∈ gs, ∀ m n, R g m n → f n = f m) (h : Moves R gs m n) : f n = f m :=
  (h.foldl_eq f (fun x _ => x) hstep).trans (List.foldl_fixed ..)

/-- Moves go through on another side without some of their members, if the others can be followed there and
those that are left out do not count there. -/
theorem Moves.filter {υ : Type} {R : γ → τ → τ → Prop} {S : γ → υ → υ → Prop} {kept : γ → Bool}
    {Rel : τ → υ → Prop} {gs : List γ} {m n : τ} {k : υ}
    (hkept : ∀ g ∈ gs, kept g = true → ∀ m n k, R g m n → Rel m k → ∃ l, S g k l ∧ Rel n l)
    (hleft : ∀ g ∈ gs, kept g = false → ∀ m n k, R g m n → Rel m k → Rel n k)
    (h : Moves R gs m n) (hrel : Rel m k) : ∃ l, Moves S (gs.filter kept) k l ∧ Rel n l := by
  induction gs generalizing m k with
  | nil =>
      obtain rfl : n = m := h
      exact ⟨k, rfl, hrel⟩
  | cons g gs ih =>
      obtain ⟨m', hm', hrest⟩ := h
      obtain ⟨hg, hgs⟩ := List.forall_mem_cons.mp hkept
      obtain ⟨hg', hgs'⟩ := List.forall_mem_cons.mp hleft
      cases hkeep : kept g with
      | true =>
          obtain ⟨k', hk', hrel'⟩ := hg hkeep m m' k hm' hrel
          obtain ⟨l, hl, hn⟩ := ih hgs hgs' hrest hrel'
          rw [List.filter_cons_of_pos hkeep]
          exact ⟨l, ⟨k', hk', hl⟩, hn⟩
      | false =>
          rw [List.filter_cons_of_neg (by rw [hkeep]; exact Bool.false_ne_true)]
          exact ih hgs hgs' hrest (hg' hkeep m m' k hm' hrel)

/-- Where each move depends on a computation, all computations can come first. -/
theorem moves_exists_ok {δ : Type} (e : γ → Except ε δ) (R : δ → τ → τ → Prop) (gs : List γ) :
    Moves (fun g m n => ∃ v, e g = .ok v ∧ R v m n) gs =
      fun m n => ∃ vs, gs.mapM e = .ok vs ∧ Moves R vs m n := by
  funext m n
  apply propext
  induction gs generalizing m with
  | nil =>
      constructor
      · exact fun h => ⟨[], rfl, h⟩
      · rintro ⟨vs, ⟨⟩, h⟩
        exact h
  | cons g gs ih =>
      rw [List.mapM_cons]
      cases hg : e g with
      | error x =>
          constructor
          · rintro ⟨k, ⟨v, hv, -⟩, -⟩
            rw [hg] at hv
            cases hv
          · rintro ⟨vs, ⟨⟩, -⟩
      | ok v =>
          constructor
          · rintro ⟨k, ⟨w, hw, hk⟩, hrest⟩
            rw [hg] at hw
            cases hw
            obtain ⟨vs, hvs, hmoves⟩ := (ih k).mp hrest
            refine ⟨v :: vs, ?_, k, hk, hmoves⟩
            rw [hvs]
            rfl
          · rintro ⟨ws, hws, hmoves⟩
            cases hvs : gs.mapM e with
            | error x =>
                rw [hvs] at hws
                cases hws
            | ok vs =>
                rw [hvs] at hws
                cases hws
                obtain ⟨k, hk, hrest⟩ := hmoves
                exact ⟨k, ⟨v, hg, hk⟩, (ih k).mpr ⟨vs, hvs, hrest⟩⟩

end SchemaSync
