import Mathlib

/-!
# Readers

A reader takes a value off the front of a text and leaves the rest, or fails. `Reader.Reads` says that a
reader takes a value off its written form and stops at the end of it, whatever follows of what may follow.
What is written part by part is read part by part, so such a statement about a text is put together from
statements about its parts (`Reads.bind`, `Reads.many`, `Reads.sepBy`).
-/

namespace SchemaSync

/-- Takes a value off the front of a text and leaves the rest, or fails. -/
abbrev Reader (α : Type) := StateT (List Char) Option α

namespace Reader

variable {α β : Type}

/-! ## What follows -/

/-- The next character of a text, if there is one, is of some kind. -/
def Ahead (p : Char → Prop) (cs : List Char) : Prop := ∀ c ∈ cs.head?, p c

variable {p q : Char → Prop}

@[simp] theorem ahead_nil : Ahead p [] := by
  intro c hc
  cases hc

@[simp] theorem ahead_cons {c : Char} {cs : List Char} : Ahead p (c :: cs) ↔ p c := by
  simp [Ahead]

/-- A word stands ahead with its first character. -/
theorem ahead_word {w : String} {c : Char} (hw : w.toList.head? = some c) (hc : p c) (rest : List Char) :
    Ahead p (w.toList ++ rest) := by
  intro d hd
  rw [List.head?_append, hw] at hd
  obtain rfl := Option.some.inj hd
  exact hc

theorem Ahead.mono {cs : List Char} (h : Ahead p cs) (hpq : ∀ c, p c → q c) : Ahead q cs :=
  fun c hc => hpq c (h c hc)

/-! ## What is read -/

/-- The written form of a value is read as the value, and reading stops at the end of it, if what follows
may follow. -/
def Reads (r : Reader α) (text : List Char) (a : α) (after : List Char → Prop) : Prop :=
  ∀ rest, after rest → r.run (text ++ rest) = some (a, rest)

/-- Nothing is read off a text with which something else begins. -/
def Refuses (r : Reader α) (after : List Char → Prop) : Prop := ∀ rest, after rest → r.run rest = none

variable {r s : Reader α} {f : α → Reader β} {t u : List Char} {a : α} {b : β}
  {mid after : List Char → Prop}

theorem Reads.mono (h : r.Reads t a mid) (hafter : ∀ rest, after rest → mid rest) : r.Reads t a after :=
  fun rest hrest => h rest (hafter rest hrest)

theorem reads_pure (a : α) : (pure a : Reader α).Reads [] a after := fun _ _ => rfl

/-- What is written one after the other is read one after the other. -/
theorem Reads.bind (hr : r.Reads t a mid) (hf : (f a).Reads u b after)
    (hmid : ∀ rest, after rest → mid (u ++ rest)) : (r >>= f).Reads (t ++ u) b after := by
  intro rest hrest
  rw [StateT.run_bind, List.append_assoc, hr _ (hmid rest hrest)]
  exact hf rest hrest

theorem Reads.map {g : α → β} (hr : r.Reads t a after) : (g <$> r).Reads t (g a) after := by
  intro rest hrest
  rw [StateT.run_map, hr rest hrest]
  rfl

theorem Reads.orElse (hr : r.Reads t a after) : (r <|> s).Reads t a after := by
  intro rest hrest
  show (r.run (t ++ rest)).orElse _ = _
  rw [hr rest hrest]
  rfl

/-- The second reader has its turn where the first one refuses. -/
theorem Reads.orElse_right (hr : r.Refuses fun cs => ∃ rest, after rest ∧ cs = t ++ rest)
    (hs : s.Reads t a after) : (r <|> s).Reads t a after := by
  intro rest hrest
  show (r.run (t ++ rest)).orElse _ = _
  rw [hr _ ⟨rest, hrest, rfl⟩]
  exact hs rest hrest

/-- What stands behind a part is not read where the part is refused. -/
theorem Refuses.bind (hr : r.Refuses after) : (r >>= f).Refuses after := by
  intro rest hrest
  rw [StateT.run_bind, hr rest hrest]
  rfl

theorem Refuses.orElse (hr : r.Refuses after) (hs : s.Refuses after) : (r <|> s).Refuses after := by
  intro rest hrest
  show (r.run rest).orElse _ = _
  rw [hr rest hrest]
  exact hs rest hrest

theorem Refuses.map {g : α → β} (hr : r.Refuses after) : (g <$> r).Refuses after := by
  intro rest hrest
  rw [StateT.run_map, hr rest hrest]
  rfl

/-- Reads what another reader reads, but only where no character of a kind follows. -/
def ending (p : Char → Bool) (r : Reader α) : Reader α := fun cs =>
  match r.run cs with
  | some (a, c :: rest) => if p c then none else some (a, c :: rest)
  | o => o

theorem Reads.ending {p : Char → Bool} (hr : r.Reads t a mid)
    (hmid : ∀ rest, Ahead (p · = false) rest → mid rest) :
    (Reader.ending p r).Reads t a (Ahead (p · = false)) := by
  intro rest hrest
  show (match r.run (t ++ rest) with | some (a, c :: rest) => _ | o => o) = _
  rw [hr rest (hmid rest hrest)]
  cases rest with
  | nil => rfl
  | cons c rest => exact if_neg (by simpa using hrest)

/-! ## Words -/

def word (w : String) : Reader Unit := fun cs => (cs.dropPrefix? w.toList).map fun rest => ((), rest)

theorem reads_word (w : String) : (word w).Reads w.toList () after := by
  intro rest _
  have hdrop : (w.toList ++ rest).dropPrefix? w.toList = some rest :=
    List.dropPrefix?_eq_some_iff.mpr ⟨w.toList, rfl, beq_self_eq_true _⟩
  show ((w.toList ++ rest).dropPrefix? w.toList).map _ = _
  rw [hdrop]
  rfl

theorem run_word_eq_none {w : String} {cs : List Char} (h : ¬ w.toList <+: cs) :
    (word w).run cs = none := by
  have hdrop : cs.dropPrefix? w.toList = none := by
    cases hd : cs.dropPrefix? w.toList with
    | none => rfl
    | some rest =>
        obtain ⟨front, hcs, hfront⟩ := List.dropPrefix?_eq_some_iff.mp hd
        exact absurd ⟨rest, by rw [hcs, eq_of_beq hfront]⟩ h
  show (cs.dropPrefix? w.toList).map _ = _
  rw [hdrop]
  rfl

/-- A word is refused in front of characters that it does not begin with. -/
theorem refuses_word {w : String} {c : Char} (hw : w.toList.head? = some c) (hc : ¬ p c) :
    (word w).Refuses (Ahead p) := by
  intro rest hrest
  refine run_word_eq_none fun ⟨cs, hcs⟩ => hc (hrest c ?_)
  rw [← hcs, List.head?_append, hw]
  rfl

theorem reads_word_bind {w : String} {g : Unit → Reader α} (h : (g ()).Reads t a after) :
    (word w >>= g).Reads (w.toList ++ t) a after := by
  have hword : (word w).Reads w.toList () fun _ => True := reads_word w
  exact hword.bind h fun _ _ => trivial

/-- A part is read up to the word that stands behind it. -/
theorem Reads.bind_word {w : String} {c : Char} (hr : r.Reads t a (Ahead p)) (hw : w.toList.head? = some c)
    (hc : p c) (hf : (f a).Reads (w.toList ++ u) b after) :
    (r >>= f).Reads (t ++ (w.toList ++ u)) b after := by
  refine hr.bind hf fun rest _ => ?_
  rw [List.append_assoc]
  exact ahead_word hw hc _

/-- A part is read up to the word at the end. -/
theorem Reads.bind_last {w : String} {c : Char} (hr : r.Reads t a (Ahead p)) (hw : w.toList.head? = some c)
    (hc : p c) (hf : (f a).Reads w.toList b after) : (r >>= f).Reads (t ++ w.toList) b after :=
  hr.bind hf fun rest _ => ahead_word hw hc rest

/-- Neither of two words is the start of the other one. -/
def Apart (v w : String) : Prop := ¬ v.toList <+: w.toList ∧ ¬ w.toList <+: v.toList

instance (v w : String) : Decidable (Apart v w) := inferInstanceAs (Decidable (_ ∧ _))

/-- Reads one of some words, as what it stands for. -/
def choice : List (String × α) → Reader α
  | [] => fun _ => none
  | (w, a) :: words => (fun _ => a) <$> word w <|> choice words

/-- A word is refused in front of one that is apart from it. -/
theorem Apart.refuses {v w : String} (h : Apart v w) :
    (word v).Refuses fun cs => ∃ rest, after rest ∧ cs = w.toList ++ rest := by
  rintro _ ⟨rest, -, rfl⟩
  refine run_word_eq_none fun hv => ?_
  rcases List.prefix_or_prefix_of_prefix hv (List.prefix_append w.toList rest) with hprefix | hprefix
  · exact h.1 hprefix
  · exact h.2 hprefix

theorem reads_choice {words : List (String × α)} {w : String}
    (hapart : (words.map Prod.fst).Pairwise Apart) (hw : (w, a) ∈ words) :
    (choice words).Reads w.toList a after := by
  induction words with
  | nil => cases hw
  | cons v words ih =>
      obtain ⟨hfirst, hrest⟩ := List.pairwise_cons.mp hapart
      rcases List.mem_cons.mp hw with rfl | hw
      · exact (reads_word w).map.orElse
      · have hvw := hfirst w (List.mem_map_of_mem hw)
        exact Reads.orElse_right hvw.refuses.map (ih hrest hw)

/-- Reads one of some words and then what stands behind it. -/
def branch (words : List (String × Reader α)) : Reader α := choice words >>= fun r => r

theorem reads_branch {words : List (String × Reader α)} {w : String}
    (hapart : (words.map Prod.fst).Pairwise Apart) (hw : (w, r) ∈ words) (hr : r.Reads t a after) :
    (branch words).Reads (w.toList ++ t) a after := by
  have hchoice : (choice words).Reads w.toList r fun _ => True := reads_choice hapart hw
  exact hchoice.bind hr fun _ _ => trivial

/-! ## Lists -/

/-- Reads as many items as there are. An item that takes up no characters is refused. -/
def many (item : Reader α) (cs : List Char) : Option (List α × List Char) :=
  match item.run cs with
  | none => some ([], cs)
  | some (a, rest) =>
    if rest.length < cs.length then (many item rest).map fun r => (a :: r.1, r.2) else none
termination_by cs.length

/-- Items are read up to where none begins. -/
theorem Reads.many {item : Reader α} {write : α → List Char} {as : List α}
    (hitem : ∀ a ∈ as, item.Reads (write a) a mid) (hne : ∀ a ∈ as, write a ≠ [])
    (hnext : ∀ a ∈ as, ∀ rest, mid (write a ++ rest)) (hlast : ∀ rest, after rest → mid rest)
    (hend : item.Refuses after) :
    Reads (many item) (as.flatMap write) as after := by
  intro rest hrest
  show Reader.many item _ = _
  induction as with
  | nil => rw [List.flatMap_nil, List.nil_append, Reader.many, hend rest hrest]
  | cons a as ih =>
      -- Behind an item stands the next one, or what follows them all.
      have hmid : mid (as.flatMap write ++ rest) := by
        cases as with
        | nil => exact hlast rest hrest
        | cons b bs =>
            rw [List.flatMap_cons, List.append_assoc]
            exact hnext b (by simp) _
      have hshorter : (as.flatMap write ++ rest).length <
          (write a ++ (as.flatMap write ++ rest)).length := by
        have hpos := List.length_pos_iff.mpr (hne a List.mem_cons_self)
        simp only [List.length_append]
        omega
      rw [List.flatMap_cons, List.append_assoc, Reader.many,
        hitem a List.mem_cons_self _ hmid]
      simp only [hshorter, if_true]
      rw [ih (fun b hb => hitem b (List.mem_cons_of_mem a hb))
        (fun b hb => hne b (List.mem_cons_of_mem a hb))
        fun b hb => hnext b (List.mem_cons_of_mem a hb)]
      rfl

def sepBy (sep : String) (item : Reader α) : Reader (List α) :=
  (item >>= fun a => (a :: ·) <$> many (word sep >>= fun _ => item)) <|> pure []

theorem toList_intercalate_cons (sep s : String) (ss : List String) :
    (sep.intercalate (s :: ss)).toList =
      s.toList ++ ss.flatMap fun x => sep.toList ++ x.toList := by
  induction ss generalizing s with
  | nil => simp
  | cons x ss ih =>
      rw [String.intercalate_cons_of_ne_nil (by simp), String.toList_append, String.toList_append, ih]
      simp

/-- Items are read up to where neither an item nor a separator begins. -/
theorem Reads.sepBy {item : Reader α} {sep : String} {text : α → String} {as : List α}
    (hitem : ∀ a ∈ as, item.Reads (text a).toList a mid) (hsep : sep ≠ "")
    (hnext : ∀ rest, mid (sep.toList ++ rest)) (hlast : ∀ rest, after rest → mid rest)
    (hend : item.Refuses after) (hstop : ∀ rest, after rest → ¬ sep.toList <+: rest) :
    (Reader.sepBy sep item).Reads (sep.intercalate (as.map text)).toList as after := by
  -- The first item has no separator in front of it; the others are items of a list that have one.
  cases as with
  | nil =>
      have hempty : (sep.intercalate (([] : List α).map text)).toList = [] := by simp
      rw [hempty]
      refine Reads.orElse_right ?_ (reads_pure [])
      rintro cs ⟨rest, hrest, hcs⟩
      rw [hcs, List.nil_append, StateT.run_bind]
      exact congrArg (Option.bind · _) (hend rest hrest)
  | cons a as =>
      apply Reads.orElse
      have hrest : Reads (Reader.many (word sep >>= fun _ => item))
          (as.flatMap fun x => sep.toList ++ (text x).toList) as after := by
        refine Reads.many (fun x hx => ?_) (fun x _ => ?_) (fun x _ _ => ?_) hlast
          (Refuses.bind fun rest hrest => run_word_eq_none (hstop rest hrest))
        · exact reads_word_bind (hitem x (List.mem_cons_of_mem a hx))
        · simp [hsep]
        · rw [List.append_assoc]
          exact hnext _
      rw [List.map_cons, toList_intercalate_cons, List.flatMap_map]
      refine (hitem a List.mem_cons_self).bind hrest.map fun rest hafter => ?_
      cases as with
      | nil => exact hlast rest hafter
      | cons b bs =>
          rw [List.flatMap_cons, List.append_assoc, List.append_assoc]
          exact hnext _

def whole (r : Reader α) (s : String) : Option α :=
  match r.run s.toList with
  | some (a, []) => some a
  | _ => none

theorem Reads.whole {text : String} (h : r.Reads text.toList a after) (hend : after []) :
    r.whole text = some a := by
  have hrun := h [] hend
  rw [List.append_nil] at hrun
  rw [Reader.whole, hrun]

/-- Reads a value for the characters that it takes up. -/
def consumed (r : Reader α) : Reader (List Char) := fun cs =>
  (r.run cs).map fun o => (cs.take (cs.length - o.2.length), o.2)

theorem Reads.consumed (h : r.Reads t a after) : (Reader.consumed r).Reads t t after := by
  intro rest hrest
  show (r.run (t ++ rest)).map _ = _
  rw [h rest hrest]
  simp

end Reader
end SchemaSync
