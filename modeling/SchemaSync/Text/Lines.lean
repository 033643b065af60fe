/-!
# Lines of a text

A text is cut into lines at every line boundary: newline, carriage return (alone or before a newline),
vertical tab, form feed, the file, group and record separators, the next-line character and the
Unicode line and paragraph separators. The boundary belongs to no line, and a boundary at the end of
the text opens no further line. A carriage return before a newline says no more than the newline alone.
-/

namespace SchemaSync.Text.Lines

/-- The characters that end a line. -/
def boundaries : List Char :=
  ['\n', '\r', '\x0b', '\x0c', '\x1c', '\x1d', '\x1e', '\u0085', '\u2028', '\u2029']

/-- The lines of the remaining characters, after the characters `line` (last first) of the line that
is being read. -/
def split : List Char → List Char → List (List Char)
  | line, [] => if line.isEmpty then [] else [line.reverse]
  | line, '\r' :: '\n' :: rest => line.reverse :: split [] rest
  | line, c :: rest =>
    if boundaries.contains c then line.reverse :: split [] rest else split (c :: line) rest

def lines (s : String) : List String := (split [] s.toList).map String.ofList

/-! ### Newlines alone -/

/-- The characters without the carriage returns that stand before a newline. -/
def plainNewlines : List Char → List Char
  | [] => []
  | '\r' :: '\n' :: cs => '\n' :: plainNewlines cs
  | c :: cs => c :: plainNewlines cs

/-- Without a carriage return there is nothing to leave out. -/
theorem plainNewlines_eq_self {cs : List Char} (h : '\r' ∉ cs) : plainNewlines cs = cs := by
  fun_induction plainNewlines cs with
  | case1 => rfl
  | case2 cs ih => simp at h
  | case3 c cs _ ih => rw [ih fun hc => h (List.mem_cons_of_mem _ hc)]

example : plainNewlines "a\r\n\r\r\nb\r".toList = "a\n\r\nb\r".toList := by decide

/-! ### What a line holds -/

/-- No line holds a boundary character. -/
theorem not_mem_boundaries_of_mem_split {line cs l : List Char} {c : Char}
    (hl : ∀ x ∈ line, x ∉ boundaries) (h : l ∈ split line cs) (hc : c ∈ l) : c ∉ boundaries := by
  fun_induction split line cs with
  | case1 line h' => simp at h
  | case2 line h' => cases List.mem_singleton.1 h; exact hl c (by simpa using hc)
  | case3 line rest ih =>
    rcases List.mem_cons.1 h with rfl | h
    · exact hl c (by simpa using hc)
    · exact ih (by simp) h
  | case4 line x rest _ hx ih =>
    rcases List.mem_cons.1 h with rfl | h
    · exact hl c (by simpa using hc)
    · exact ih (by simp) h
  | case5 line x rest _ hx ih =>
    refine ih ?_ h
    intro y hy
    rcases List.mem_cons.1 hy with rfl | hy
    · simpa using hx
    · exact hl y hy

end SchemaSync.Text.Lines
