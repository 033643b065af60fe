import SchemaSync.Proofs.Sql.Token

/-!
# Placeholders

A piece of SQL is written with the literals of its parameters in the places of its placeholders. `Substituted`
says what this means without cutting the text into pieces: it goes along the template, which alone decides what
is a placeholder, so that a `?` in a filling is text like any other. The main statement is about pieces of SQL
that are nested to any depth: one is written exactly if it is complete, and what is written is its own text with
the literals put in.
-/

namespace SchemaSync.Sql

/-- A template with its placeholders replaced in order by some fillings, one for each. -/
inductive Substituted : List Char → List (List Char) → List Char → Prop
  | nil : Substituted [] [] []
  | keep {c : Char} {cs result : List Char} {fillings : List (List Char)} (hc : c ≠ '?')
      (h : Substituted cs fillings result) : Substituted (c :: cs) fillings (c :: result)
  | put {cs filling result : List Char} {fillings : List (List Char)}
      (h : Substituted cs fillings result) :
      Substituted ('?' :: cs) (filling :: fillings) (filling ++ result)

namespace Substituted

variable {cs before after result other : List Char} {fillings : List (List Char)}

theorem length_fillings (h : Substituted cs fillings result) : fillings.length = cs.count '?' := by
  induction h with
  | nil => rfl
  | keep hc _ ih => rw [ih, List.count_cons_of_ne hc]
  | put _ ih => rw [List.length_cons, ih, List.count_cons_self]

/-- What a template and its fillings give is determined by them. -/
theorem unique (h : Substituted cs fillings result) (h' : Substituted cs fillings other) :
    result = other := by
  induction h generalizing other with
  | nil =>
      cases h'
      rfl
  | keep hc _ ih =>
      cases h' with
      | keep _ h' => rw [ih h']
      | put => exact absurd rfl hc
  | put _ ih =>
      cases h' with
      | keep hc => exact absurd rfl hc
      | put h' => rw [ih h']

/-- The part of a template before a placeholder takes the fillings before that of the placeholder, and the part
behind it takes the others. -/
theorem split (h : Substituted (before ++ '?' :: after) fillings result) :
    ∃ earlier filling later front back, fillings = earlier ++ filling :: later ∧
      earlier.length = before.count '?' ∧ result = front ++ (filling ++ back) ∧
      Substituted before earlier front ∧ Substituted after later back := by
  induction before generalizing fillings result with
  | nil =>
      cases h with
      | keep hc => exact absurd rfl hc
      | put h => exact ⟨[], _, _, [], _, rfl, rfl, rfl, .nil, h⟩
  | cons c before ih =>
      cases h with
      | keep hc h =>
          obtain ⟨earlier, filling, later, front, back, rfl, hlength, rfl, hbefore, hafter⟩ := ih h
          exact ⟨earlier, filling, later, c :: front, back, rfl, by rw [hlength, List.count_cons_of_ne hc],
            rfl, .keep hc hbefore, hafter⟩
      | @put _ first _ _ h =>
          obtain ⟨earlier, filling, later, front, back, rfl, hlength, rfl, hbefore, hafter⟩ := ih h
          exact ⟨first :: earlier, filling, later, first ++ front, back, rfl,
            by rw [List.length_cons, hlength, List.count_cons_self],
            (List.append_assoc _ _ _).symm, .put hbefore, hafter⟩

end Substituted

/-! ## Filling -/

theorem fill_cons (c : Char) (first : List Char) (rest : List (List Char)) (fs : List String) :
    fill (c :: first) rest fs = c :: fill first rest fs := by
  cases rest <;> cases fs <;> simp [fill]

/-- Filling the pieces of a template is substitution. -/
theorem substituted_fill {cs : List Char} {fs : List String} (h : cs.count '?' = fs.length) :
    Substituted cs (fs.map String.toList) (fill (pieces cs).1 (pieces cs).2 fs) := by
  induction cs generalizing fs with
  | nil =>
      obtain rfl := List.length_eq_zero_iff.mp h.symm
      exact .nil
  | cons c cs ih =>
      by_cases hc : c = '?'
      · subst hc
        cases fs with
        | nil => simp at h
        | cons f fs =>
            have hcount : cs.count '?' = fs.length := by simpa using h
            have hput : Substituted ('?' :: cs) (f.toList :: fs.map String.toList) _ := .put (ih hcount)
            simpa [pieces, fill] using hput
      · have hcount : cs.count '?' = fs.length := by rw [← h, List.count_cons_of_ne hc]
        simpa [pieces, hc, fill_cons] using Substituted.keep hc (ih hcount)

/-! ## Pieces of SQL -/

variable {v : Value} {sql s : String} {params : List Value} {ls : List String}

theorem literals_eq_ok_iff : literals params = .ok ls ↔ List.Forall₂ (literal · = .ok ·) params ls := by
  induction params generalizing ls with
  | nil =>
      rw [literals, List.forall₂_nil_left_iff]
      constructor
      · rintro ⟨⟩
        rfl
      · rintro rfl
        rfl
  | cons p params ih =>
      rw [literals, List.forall₂_cons_left_iff]
      cases hp : literal p with
      | error e =>
          constructor
          · rintro ⟨⟩
          · rintro ⟨l, ls, ⟨⟩, -⟩
      | ok l =>
          cases hparams : literals params with
          | error e =>
              constructor
              · rintro ⟨⟩
              · rintro ⟨l, ls, -, hls, -⟩
                cases hparams.symm.trans (ih.mpr hls)
          | ok ls =>
              constructor
              · rintro ⟨⟩
                exact ⟨l, ls, rfl, ih.mp hparams, rfl⟩
              · rintro ⟨l', ls', ⟨⟩, hls', rfl⟩
                cases hparams.symm.trans (ih.mpr hls')
                rfl

/-- A piece of SQL is written if its placeholders are as many as its parameters, as its text with their literals
put in. -/
theorem literal_expression_eq_ok_iff : literal (.expression sql params) = .ok s ↔
    ∃ ls, List.Forall₂ (literal · = .ok ·) params ls ∧
      Substituted sql.toList (ls.map String.toList) s.toList := by
  rw [literal]
  dsimp only
  rw [length_pieces]
  constructor
  · intro h
    split at h
    · next hcount =>
      cases hls : literals params with
      | error e =>
          rw [hls] at h
          cases h
      | ok ls =>
          rw [hls] at h
          cases h
          have hliterals := literals_eq_ok_iff.mp hls
          refine ⟨ls, hliterals, ?_⟩
          rw [String.toList_ofList]
          exact substituted_fill (hcount.trans hliterals.length_eq)
    · cases h
  · rintro ⟨ls, hliterals, hs⟩
    have hcount : sql.toList.count '?' = params.length := by
      rw [← hs.length_fillings, List.length_map, hliterals.length_eq]
    have hfill := hs.unique (substituted_fill (hcount.trans hliterals.length_eq))
    rw [if_pos hcount, literals_eq_ok_iff.mpr hliterals]
    show Except.ok _ = _
    rw [← hfill, String.ofList_toList]

/-- A value that is written: one that has a literal, or a piece of SQL that has as many parameters as
placeholders, each of them complete. -/
inductive Complete : Value → Prop
  | plain {v : Value} {s : String} (hv : v.isExpression = false) (h : literal v = .ok s) : Complete v
  | expression {sql : String} {params : List Value} (hcount : sql.toList.count '?' = params.length)
      (hparams : ∀ p ∈ params, Complete p) : Complete (.expression sql params)

theorem Complete.exists_literal (h : Complete v) : ∃ s, literal v = .ok s := by
  induction h with
  | plain _ h => exact ⟨_, h⟩
  | @expression sql params hcount _ ih =>
      obtain ⟨ls, hls⟩ := exists_forall₂ ih
      have hfill := substituted_fill (hcount.trans hls.length_eq)
      rw [← String.toList_ofList (l := fill _ _ ls)] at hfill
      exact ⟨_, literal_expression_eq_ok_iff.mpr ⟨ls, hls, hfill⟩⟩

theorem exists_literal_of_mem (h : List.Forall₂ (literal · = .ok ·) params ls) :
    ∀ p ∈ params, ∃ l, literal p = .ok l := by
  intro p hp
  obtain ⟨l, -, hl⟩ := exists_mem_of_forall₂ h.flip p hp
  exact ⟨l, hl⟩

/-- Whatever is written is complete, and so are the parameters at every level. -/
theorem complete_of_literal {v : Value} {s : String} (h : literal v = .ok s) : Complete v := by
  -- By recursion on the value: a parameter is smaller than the piece of SQL that it belongs to.
  cases hv : v.isExpression with
  | false => exact .plain hv h
  | true =>
      cases v with
      | expression sql params =>
          obtain ⟨ls, hls, hs⟩ := literal_expression_eq_ok_iff.mp h
          refine .expression ?_ fun p hp => ?_
          · rw [← hs.length_fillings, List.length_map, hls.length_eq]
          · obtain ⟨l, hl⟩ := exists_literal_of_mem hls p hp
            exact complete_of_literal hl
      | _ => cases hv
termination_by sizeOf v
decreasing_by
  subst_vars
  have hsize := List.sizeOf_lt_of_mem hp
  simp only [Value.expression.sizeOf_spec]
  omega

/-- **Substitution is simultaneous and exact**: a piece of SQL is written exactly if at every level there are as
many placeholders as parameters and every other parameter has a literal. What is written is then its text with
the literals of the parameters put in. The literal of a parameter stands in the place of its placeholder, and
what stands before and behind that comes from what stands there in the text, without another look at the
literals. -/
theorem literal_expression_substituted (sql : String) (params : List Value) :
    ((∃ s, literal (.expression sql params) = .ok s) ↔ Complete (.expression sql params)) ∧
      (∀ s, literal (.expression sql params) = .ok s ↔
        ∃ ls, List.Forall₂ (literal · = .ok ·) params ls ∧
          Substituted sql.toList (ls.map String.toList) s.toList) ∧
      ∀ s ls before after, literal (.expression sql params) = .ok s →
        List.Forall₂ (literal · = .ok ·) params ls → sql.toList = before ++ '?' :: after →
        ∃ earlier l later front back, ls = earlier ++ l :: later ∧ earlier.length = before.count '?' ∧
          s.toList = front ++ (l.toList ++ back) ∧
          Substituted before (earlier.map String.toList) front ∧
          Substituted after (later.map String.toList) back := by
  refine ⟨⟨fun ⟨s, hs⟩ => complete_of_literal hs, Complete.exists_literal⟩,
    fun s => literal_expression_eq_ok_iff, ?_⟩
  intro s ls before after h hls hsql
  obtain ⟨ls', hls', hs⟩ := literal_expression_eq_ok_iff.mp h
  obtain rfl : ls' = ls := by
    have hsame := (literals_eq_ok_iff.mpr hls').symm.trans (literals_eq_ok_iff.mpr hls)
    exact Except.ok.inj hsame
  -- The template is cut at the placeholder, and its fillings are literals of the parameters.
  rw [hsql] at hs
  obtain ⟨earlier, filling, later, front, back, hfillings, hlength, hresult, hbefore, hafter⟩ := hs.split
  obtain ⟨earlier, others, rfl, rfl, hothers⟩ := List.map_eq_append_iff.mp hfillings
  obtain ⟨l, later, rfl, rfl, rfl⟩ := List.map_eq_cons_iff.mp hothers
  rw [List.length_map] at hlength
  exact ⟨earlier, l, later, front, back, rfl, hlength, hresult, hbefore, hafter⟩

example : literal (.expression "pair(?, ?)" [.text "why?", .expression "lower(?)" [.text "?'"]]) =
    .ok "pair('why?', lower('?'''))" := by rfl

end SchemaSync.Sql
