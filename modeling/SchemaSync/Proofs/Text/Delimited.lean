import Mathlib

/-!
# Texts that show where they end

What stands before the first delimiter of a text can be read back, and so can what stands behind the
last one. Texts that are joined by commas need not be free of commas to be told apart: it is enough
that each of them, followed by a comma or by nothing, shows where it ends (`joined_inj_of_ends`).
-/

namespace SchemaSync.Text

variable {α : Type}

/-- What stands before and behind the first delimiter is determined. -/
theorem append_cons_inj_first {a : α} : ∀ {xs ys rs ss : List α}, a ∉ xs → a ∉ ys →
    xs ++ a :: rs = ys ++ a :: ss → xs = ys ∧ rs = ss
  | [], [], _, _, _, _, h => ⟨rfl, (List.cons.inj h).2⟩
  | [], y :: ys, _, _, _, hy, h => by
    have hay : a = y := (List.cons.inj h).1
    exact absurd (hay ▸ List.mem_cons_self) hy
  | x :: xs, [], _, _, hx, _, h => by
    have hxa : x = a := (List.cons.inj h).1
    exact absurd (hxa ▸ List.mem_cons_self) hx
  | x :: xs, y :: ys, _, _, hx, hy, h => by
    obtain ⟨hhead, htail⟩ := List.cons.inj h
    obtain ⟨hinit, hrest⟩ := append_cons_inj_first (fun hm => hx (List.mem_cons_of_mem x hm))
      (fun hm => hy (List.mem_cons_of_mem y hm)) htail
    exact ⟨by rw [hhead, hinit], hrest⟩

/-- What stands before and behind the last delimiter is determined. -/
theorem append_cons_inj_last {a : α} {xs ys rs ss : List α} (hr : a ∉ rs) (hs : a ∉ ss)
    (h : xs ++ a :: rs = ys ++ a :: ss) : xs = ys ∧ rs = ss := by
  have hreverse := congrArg List.reverse h
  simp only [List.reverse_append, List.reverse_cons, List.append_assoc, List.singleton_append]
    at hreverse
  obtain ⟨hrest, hinit⟩ := append_cons_inj_first (by simpa using hr) (by simpa using hs) hreverse
  exact ⟨List.reverse_injective hinit, List.reverse_injective hrest⟩

/-! ## Joined texts -/

/-- What may follow a text in a joined list: nothing, or a comma and more. -/
def Follows (rest : List Char) : Prop := ∀ c ∈ rest.head?, c = ','

/-- Each of some texts shows where it ends. -/
def ShowsEnd (p : String → Prop) : Prop :=
  ∀ v w, p v → p w → ∀ r s, Follows r → Follows s → v.toList ++ r = w.toList ++ s → v = w ∧ r = s

/-- The rest of a joined list behind its first text. -/
def joinedRest (texts : List String) : List Char := texts.flatMap fun t => ',' :: t.toList

theorem toList_joined_cons (t : String) (texts : List String) :
    (",".intercalate (t :: texts)).toList = t.toList ++ joinedRest texts := by
  induction texts generalizing t with
  | nil => simp [joinedRest]
  | cons u texts ih =>
      rw [String.intercalate_cons_of_ne_nil (by simp), String.toList_append, String.toList_append, ih]
      simp [joinedRest]

theorem follows_joinedRest (texts : List String) : Follows (joinedRest texts) := by
  cases texts with
  | nil => simp [Follows, joinedRest]
  | cons t texts => simp [Follows, joinedRest]

theorem joinedRest_inj {p : String → Prop} (hp : ShowsEnd p) :
    ∀ {vs ws : List String}, (∀ v ∈ vs, p v) → (∀ w ∈ ws, p w) →
      joinedRest vs = joinedRest ws → vs = ws
  | [], [], _, _, _ => rfl
  | [], w :: ws, _, _, h => by simp [joinedRest] at h
  | v :: vs, [], _, _, h => by simp [joinedRest] at h
  | v :: vs, w :: ws, hv, hw, h => by
    have hstep : v.toList ++ joinedRest vs = w.toList ++ joinedRest ws := by
      simpa [joinedRest] using h
    obtain ⟨hfirst, hrest⟩ := hp v w (hv v (by simp)) (hw w (by simp)) _ _
      (follows_joinedRest vs) (follows_joinedRest ws) hstep
    rw [hfirst, joinedRest_inj hp (fun x hx => hv x (List.mem_cons_of_mem v hx))
      (fun x hx => hw x (List.mem_cons_of_mem w hx)) hrest]

/-- Texts that show where they end are joined to one text only if they are the same texts. -/
theorem joined_inj_of_ends {p : String → Prop} (hp : ShowsEnd p) (hempty : ¬ p "")
    {vs ws : List String} (hv : ∀ v ∈ vs, p v) (hw : ∀ w ∈ ws, p w) :
    ",".intercalate vs = ",".intercalate ws ↔ vs = ws := by
  have hne : ∀ t texts, p t → ",".intercalate (t :: texts) ≠ "" := by
    intro t texts ht h
    have hchars := congrArg String.toList h
    rw [toList_joined_cons, String.toList_empty, List.append_eq_nil_iff] at hchars
    rw [String.toList_eq_nil_iff] at hchars
    exact hempty (hchars.1 ▸ ht)
  refine ⟨fun h => ?_, fun h => by rw [h]⟩
  cases vs with
  | nil =>
      cases ws with
      | nil => rfl
      | cons w ws => exact absurd h.symm (hne w ws (hw w (by simp)))
  | cons v vs =>
      cases ws with
      | nil => exact absurd h (hne v vs (hv v (by simp)))
      | cons w ws =>
          -- A comma in front makes the first text one of the rest.
          apply joinedRest_inj hp hv hw
          have hchars := congrArg String.toList h
          rw [toList_joined_cons, toList_joined_cons] at hchars
          simpa [joinedRest] using hchars

end SchemaSync.Text
