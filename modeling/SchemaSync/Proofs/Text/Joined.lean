import Mathlib

/-!
# Texts joined by commas

A list of words without commas can be read back from the words joined by commas, unless there is no
word: a single empty word is joined to the empty text as well. Joining does not remember groups, so
joining joined groups is joining the words of all groups. This is the reason why lists of lists cannot
be told apart by a text that uses one delimiter for both levels.
-/

namespace SchemaSync.Text

def CommaFree (words : List String) : Prop := ∀ w ∈ words, ',' ∉ w.toList

/-- The words of a comma-free list, joined, are read back by splitting at the commas. -/
theorem splitOn_joined {words : List String} (hfree : CommaFree words) (hne : words ≠ []) :
    (",".intercalate words).toList.splitOn ',' = words.map String.toList := by
  rw [String.toList_intercalate]
  apply List.splitOn_intercalate
  · intro l hl
    obtain ⟨w, hw, rfl⟩ := List.mem_map.mp hl
    exact hfree w hw
  · simpa using hne

/-- Two lists of words are joined to one text only if they are the same list. -/
theorem joined_inj {vs ws : List String} (hv : CommaFree vs) (hw : CommaFree ws) (hvne : vs ≠ [])
    (hwne : ws ≠ []) : ",".intercalate vs = ",".intercalate ws ↔ vs = ws := by
  constructor
  · intro h
    have hsplit := congrArg (fun s : String => s.toList.splitOn ',') h
    simp only [splitOn_joined hv hvne, splitOn_joined hw hwne] at hsplit
    have hinj : Function.Injective String.toList := fun _ _ => String.toList_inj.mp
    exact List.map_injective_iff.mpr hinj hsplit
  · intro h
    rw [h]

/-- Joining groups of words and then the joined groups is joining all words. -/
theorem joined_groups :
    ∀ {groups : List (List String)}, (∀ g ∈ groups, g ≠ []) →
      ",".intercalate (groups.map (String.intercalate ",")) = ",".intercalate groups.flatten
  | [], _ => rfl
  | [g], _ => by simp
  | g :: g' :: groups, hne => by
    have hg : g ≠ [] := hne g (by simp)
    have hg' : g' ≠ [] := hne g' (by simp)
    have hrest : ∀ k ∈ g' :: groups, k ≠ [] := fun k hk => hne k (List.mem_cons_of_mem _ hk)
    have hflatten : (g' :: groups).flatten ≠ [] := by
      rw [List.flatten_cons]
      exact List.append_ne_nil_of_left_ne_nil hg' _
    have ih := joined_groups hrest
    have hsplit : (g :: g' :: groups).flatten = g ++ (g' :: groups).flatten := List.flatten_cons
    rw [List.map_cons, String.intercalate_cons_of_ne_nil (by simp), ih, hsplit,
      String.intercalate_append_of_ne_nil hg hflatten]

end SchemaSync.Text
