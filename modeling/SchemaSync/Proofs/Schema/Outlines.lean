import SchemaSync.Proofs.Schema.Canonical
import SchemaSync.Proofs.Text.Delimited

/-!
# Outlines of foreign keys are read back

The text of an outline is made of encoded column names, the name of the target as it stands and two
keywords. The columns end at the first space. Where the target ends can be seen from either side:
from the bar behind it if the name holds no bar, and from the comma that follows the whole text if it
holds no comma. So the outlines of the foreign keys of a table can be read back from their joined texts
unless a target's name holds both (`outlinesText_inj`).
-/

namespace SchemaSync

/-! ## Texts of names and keywords -/

theorem space_not_mem_nameWords {names : Finset String} {w : String} (hw : w ∈ nameWords names) :
    ' ' ∉ w.toList := by
  unfold nameWords at hw
  split at hw
  · rw [List.mem_singleton.mp hw]
    decide
  · rw [Finset.mem_sort, Finset.mem_image] at hw
    obtain ⟨name, -, rfl⟩ := hw
    intro hspace
    rw [Text.Percent.toList_encode] at hspace
    exact absurd (Text.Percent.isEncodedChar_of_mem_encodeChars hspace) (by decide)

theorem space_not_mem_joined_nameWords (names : Finset String) :
    ' ' ∉ (",".intercalate (nameWords names)).toList := by
  cases hwords : nameWords names with
  | nil => exact absurd hwords (nameWords_ne_nil names)
  | cons w words =>
      have hfree : ∀ v ∈ w :: words, ' ' ∉ v.toList := fun v hv =>
        space_not_mem_nameWords (hwords ▸ hv)
      rw [Text.toList_joined_cons, List.mem_append, not_or]
      refine ⟨hfree w (by simp), ?_⟩
      unfold Text.joinedRest
      rw [List.mem_flatMap]
      rintro ⟨v, hv, hspace⟩
      rcases List.mem_cons.mp hspace with hcomma | hspace
      · exact absurd hcomma (by decide)
      · exact hfree v (List.mem_cons_of_mem w hv) hspace

theorem joined_nameWords_inj {m n : Finset String} (hm : m ≠ ∅) (hn : n ≠ ∅)
    (h : (",".intercalate (nameWords m)).toList = (",".intercalate (nameWords n)).toList) : m = n :=
  nameWords_inj hm hn ((Text.joined_inj (commaFree_nameWords m) (commaFree_nameWords n)
    (nameWords_ne_nil m) (nameWords_ne_nil n)).mp (String.toList_inj.mp h))

theorem Action.keyword_inj {a b : Action} (h : a.keyword.toList = b.keyword.toList) : a = b := by
  revert h
  cases a <;> cases b <;> decide

theorem Action.bar_not_mem_keyword (a : Action) : '|' ∉ a.keyword.toList := by
  cases a <;> decide

theorem Action.comma_not_mem_keyword (a : Action) : ',' ∉ a.keyword.toList := by
  cases a <;> decide

namespace ForeignKey.Outline

open Text (Follows append_cons_inj_first append_cons_inj_last)

/-- A name that does not hold both delimiters between which it stands. -/
def Plain (name : String) : Prop := ¬ (',' ∈ name.toList ∧ '|' ∈ name.toList)

instance (name : String) : Decidable (Plain name) :=
  inferInstanceAs (Decidable (¬ (',' ∈ name.toList ∧ '|' ∈ name.toList)))

/-- An outline with columns on both sides and a plain target. -/
structure Proper (o : Outline) : Prop where
  localNames : o.localNames ≠ ∅
  foreignNames : o.foreignNames ≠ ∅
  target : Plain o.target

/-! ## The target and the actions -/

/-- The text of an outline from its target on. -/
def ending (o : Outline) : List Char :=
  (o.target.toList ++ ' ' :: '|' :: ' ' :: (o.onDelete.keyword.toList ++ [' '])) ++
    '|' :: ' ' :: o.onUpdate.keyword.toList

/-- The target and the actions are those of the other outline. -/
def SameEnding (o q : Outline) : Prop :=
  o.target = q.target ∧ o.onDelete = q.onDelete ∧ o.onUpdate = q.onUpdate

variable {o q : Outline} {r s : List Char}

theorem bar_mem_ending (o : Outline) : '|' ∈ o.ending := by simp [ending]

theorem comma_mem_ending_iff : ',' ∈ o.ending ↔ ',' ∈ o.target.toList := by
  simp [ending, Action.comma_not_mem_keyword]

/-- From the end of the text, the actions are found behind the last two bars. -/
theorem sameEnding_of_ending_eq (h : o.ending = q.ending) : SameEnding o q := by
  have hfree : ∀ a : Action, '|' ∉ ' ' :: a.keyword.toList := fun a => by
    simp [Action.bar_not_mem_keyword a]
  obtain ⟨hfront, hupdate⟩ := append_cons_inj_last (hfree o.onUpdate) (hfree q.onUpdate) h
  have hsplit : ∀ p : Outline,
      p.target.toList ++ ' ' :: '|' :: ' ' :: (p.onDelete.keyword.toList ++ [' ']) =
        (p.target.toList ++ [' ']) ++ '|' :: ((' ' :: p.onDelete.keyword.toList) ++ [' ']) :=
    fun p => by simp
  rw [hsplit, hsplit] at hfront
  obtain ⟨htarget, hdelete⟩ := append_cons_inj_last (by simp [Action.bar_not_mem_keyword])
    (by simp [Action.bar_not_mem_keyword]) hfront
  exact ⟨String.toList_inj.mp (List.append_cancel_right htarget),
    Action.keyword_inj (List.cons.inj (List.append_cancel_right hdelete)).2,
    Action.keyword_inj (List.cons.inj hupdate).2⟩

theorem eq_of_comma_not_mem {xs ys : List Char} (hx : ',' ∉ xs) (hy : ',' ∉ ys) (hr : Follows r)
    (hs : Follows s) (h : xs ++ r = ys ++ s) : xs = ys ∧ r = s := by
  cases r with
  | nil =>
      cases s with
      | nil => exact ⟨by simpa using h, rfl⟩
      | cons d s =>
          have hd : d = ',' := hs d rfl
          rw [List.append_nil, hd] at h
          exact absurd (h ▸ by simp) hx
  | cons c r =>
      have hc : c = ',' := hr c rfl
      cases s with
      | nil =>
          rw [List.append_nil, hc] at h
          exact absurd (h ▸ by simp) hy
      | cons d s =>
          have hd : d = ',' := hs d rfl
          subst hc hd
          obtain ⟨hinit, hrest⟩ := append_cons_inj_first hx hy h
          exact ⟨hinit, by rw [hrest]⟩

/-- Without bars in the targets, each part of the ending stops at a bar or at the comma behind it. -/
theorem ending_inj_of_bar_not_mem (ho : '|' ∉ o.target.toList) (hq : '|' ∉ q.target.toList)
    (hr : Follows r) (hs : Follows s) (h : o.ending ++ r = q.ending ++ s) :
    SameEnding o q ∧ r = s := by
  have hsplit : ∀ (p : Outline) (t : List Char), p.ending ++ t =
      (p.target.toList ++ [' ']) ++ '|' :: ((' ' :: p.onDelete.keyword.toList ++ [' ']) ++
        '|' :: ((' ' :: p.onUpdate.keyword.toList) ++ t)) := fun p t => by simp [ending]
  rw [hsplit, hsplit] at h
  obtain ⟨htarget, h⟩ := append_cons_inj_first (by simpa using ho) (by simpa using hq) h
  obtain ⟨hdelete, h⟩ := append_cons_inj_first (by simp [Action.bar_not_mem_keyword])
    (by simp [Action.bar_not_mem_keyword]) h
  obtain ⟨hupdate, hrest⟩ := eq_of_comma_not_mem (by simp [Action.comma_not_mem_keyword])
    (by simp [Action.comma_not_mem_keyword]) hr hs h
  exact ⟨⟨String.toList_inj.mp (List.append_cancel_right htarget),
    Action.keyword_inj (List.cons.inj (List.append_cancel_right hdelete)).2,
    Action.keyword_inj (List.cons.inj hupdate).2⟩, hrest⟩

/-- A comma of the target in which no bar stands does not end the text of another outline: a bar would
have to come first. -/
theorem ending_ne_of_comma_mem (ho : ',' ∈ o.target.toList) (hbar : '|' ∉ o.target.toList)
    (hq : ',' ∉ q.target.toList) (hs : Follows s) : o.ending ++ r ≠ q.ending ++ s := by
  intro h
  have hending : ',' ∉ q.ending := fun hm => hq (comma_mem_ending_iff.mp hm)
  obtain ⟨front, back, htarget, hfree⟩ := List.eq_append_cons_of_mem ho
  have hfront : '|' ∉ front := fun hm => hbar (htarget ▸ List.mem_append_left _ hm)
  have hcut : ∃ rest, o.ending ++ r = front ++ ',' :: rest := ⟨_, by
    rw [ending, htarget]
    simp only [List.append_assoc, List.cons_append]
    rfl⟩
  obtain ⟨rest, hrest⟩ := hcut
  rw [hrest] at h
  cases s with
  | nil =>
      rw [List.append_nil] at h
      exact hending (h ▸ by simp)
  | cons d s =>
      have hd : d = ',' := hs d rfl
      subst hd
      obtain ⟨hsame, -⟩ := append_cons_inj_first hfree hending h
      exact hfront (hsame ▸ q.bar_mem_ending)

/-- Plain targets and the actions behind them are read back. -/
theorem ending_inj (ho : Plain o.target) (hq : Plain q.target) (hr : Follows r) (hs : Follows s)
    (h : o.ending ++ r = q.ending ++ s) : SameEnding o q ∧ r = s := by
  by_cases hoc : ',' ∈ o.target.toList
  · have hob : '|' ∉ o.target.toList := fun hm => ho ⟨hoc, hm⟩
    by_cases hqc : ',' ∈ q.target.toList
    · exact ending_inj_of_bar_not_mem hob (fun hm => hq ⟨hqc, hm⟩) hr hs h
    · exact absurd h (ending_ne_of_comma_mem hoc hob hqc hs)
  · by_cases hqc : ',' ∈ q.target.toList
    · exact absurd h.symm (ending_ne_of_comma_mem hqc (fun hm => hq ⟨hqc, hm⟩) hoc hr)
    · obtain ⟨hending, hrest⟩ := eq_of_comma_not_mem (fun hm => hoc (comma_mem_ending_iff.mp hm))
        (fun hm => hqc (comma_mem_ending_iff.mp hm)) hr hs h
      exact ⟨sameEnding_of_ending_eq hending, hrest⟩

/-! ## Whole outlines -/

theorem toList_text (o : Outline) : o.text.toList =
    (",".intercalate (nameWords o.localNames)).toList ++ ' ' :: ("-> ".toList ++
      ((",".intercalate (nameWords o.foreignNames)).toList ++ ' ' :: ("on ".toList ++ o.ending))) := by
  simp only [text, ending, String.toList_append, List.append_assoc, List.cons_append]
  rfl

/-- The text of a proper outline, followed by a comma or by nothing, is read back. -/
theorem text_append_inj (ho : o.Proper) (hq : q.Proper) (hr : Follows r) (hs : Follows s)
    (h : o.text.toList ++ r = q.text.toList ++ s) : o = q ∧ r = s := by
  simp only [toList_text, List.append_assoc, List.cons_append] at h
  obtain ⟨hlocal, h⟩ := append_cons_inj_first (space_not_mem_joined_nameWords _)
    (space_not_mem_joined_nameWords _) h
  obtain ⟨hforeign, h⟩ := append_cons_inj_first (space_not_mem_joined_nameWords _)
    (space_not_mem_joined_nameWords _) (List.append_cancel_left h)
  obtain ⟨⟨htarget, hdelete, hupdate⟩, hrest⟩ :=
    ending_inj ho.target hq.target hr hs (List.append_cancel_left h)
  have hlocalNames := joined_nameWords_inj ho.localNames hq.localNames hlocal
  have hforeignNames := joined_nameWords_inj ho.foreignNames hq.foreignNames hforeign
  refine ⟨?_, hrest⟩
  cases o
  cases q
  simp_all

theorem text_inj (ho : o.Proper) (hq : q.Proper) (h : o.text = q.text) : o = q :=
  (text_append_inj ho hq (r := []) (s := []) (by simp [Follows]) (by simp [Follows]) (by rw [h])).1

theorem showsEnd_text : Text.ShowsEnd fun t => ∃ o : Outline, o.Proper ∧ o.text = t := by
  rintro _ _ ⟨o, ho, rfl⟩ ⟨q, hq, rfl⟩ r s hr hs h
  obtain ⟨hsame, hrest⟩ := text_append_inj ho hq hr hs h
  exact ⟨by rw [hsame], hrest⟩

theorem text_ne_empty (o : Outline) : o.text ≠ "" := by
  intro h
  have hchars := congrArg String.toList h
  rw [toList_text] at hchars
  simp at hchars

end ForeignKey.Outline

/-- Proper outlines are read back from their joined texts. -/
theorem outlinesText_inj {os qs : Finset ForeignKey.Outline} (ho : ∀ o ∈ os, o.Proper)
    (hq : ∀ q ∈ qs, q.Proper) : outlinesText os = outlinesText qs ↔ os = qs := by
  have hproper : ∀ {ps : Finset ForeignKey.Outline}, (∀ p ∈ ps, p.Proper) →
      ∀ t ∈ (ps.image ForeignKey.Outline.text).sort,
        ∃ o : ForeignKey.Outline, o.Proper ∧ o.text = t := by
    intro ps hps t ht
    rw [Finset.mem_sort, Finset.mem_image] at ht
    obtain ⟨p, hp, rfl⟩ := ht
    exact ⟨p, hps p hp, rfl⟩
  have hempty : ¬ ∃ o : ForeignKey.Outline, o.Proper ∧ o.text = "" := by
    rintro ⟨o, -, h⟩
    exact o.text_ne_empty h
  unfold outlinesText
  rw [Text.joined_inj_of_ends ForeignKey.Outline.showsEnd_text hempty (hproper ho) (hproper hq)]
  refine ⟨fun h => ?_, fun h => by rw [h]⟩
  have himage := congrArg List.toFinset h
  rw [Finset.sort_toFinset, Finset.sort_toFinset] at himage
  -- Outlines of one text are equal, so neither set holds an outline that the other does not.
  have hsub : ∀ {ps ts : Finset ForeignKey.Outline}, (∀ p ∈ ps, p.Proper) → (∀ t ∈ ts, t.Proper) →
      ps.image ForeignKey.Outline.text = ts.image ForeignKey.Outline.text → ps ⊆ ts := by
    intro ps ts hps hts himage p hp
    have hmem : p.text ∈ ts.image ForeignKey.Outline.text :=
      himage ▸ Finset.mem_image_of_mem _ hp
    obtain ⟨t, ht, htext⟩ := Finset.mem_image.mp hmem
    exact ForeignKey.Outline.text_inj (hts t ht) (hps p hp) htext ▸ ht
  exact Finset.Subset.antisymm (hsub ho hq himage) (hsub hq ho himage.symm)

end SchemaSync
