/-!
# Cut texts

A text of which only so many bytes of its UTF-8 form are kept. A character that the cut goes through is
replaced. The main statement: a text that is short enough stays as it is.
-/

namespace SchemaSync.Text.Cut

def replacement : Char := '\ufffd'

def size : List Char → Nat
  | [] => 0
  | c :: cs => c.utf8Size + size cs

/-- The characters within the first `limit` bytes. -/
def chars : Nat → List Char → List Char
  | _, [] => []
  | limit, c :: cs =>
    if c.utf8Size ≤ limit then c :: chars (limit - c.utf8Size) cs
    else if limit = 0 then [] else [replacement]

def text (limit : Nat) (s : String) : String := String.ofList (chars limit s.toList)

/-- What fits is not cut. -/
theorem chars_eq_self {limit : Nat} {cs : List Char} (h : size cs ≤ limit) : chars limit cs = cs := by
  induction cs generalizing limit with
  | nil => rfl
  | cons c cs ih =>
    rw [size] at h
    rw [chars, if_pos (by omega), ih (by omega)]

example : chars 3 "aéb".toList = "aé".toList := by decide
example : chars 2 "aéb".toList = ['a', replacement] := by decide

end SchemaSync.Text.Cut
