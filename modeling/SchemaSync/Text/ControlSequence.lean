/-!
# Control sequences of a terminal

A control sequence starts with an escape character and an opening square bracket, goes on with parameters
and intermediate characters and ends at the first final character. It steers the terminal instead of being
shown, so output that may go elsewhere leaves it out. What breaks off before its final character is no
control sequence and stays.
-/

namespace SchemaSync.Text.ControlSequence

def escape : Char := '\x1b'

/-- The parameters of a control sequence: digits, punctuation between them and private marks. -/
def isParameter (c : Char) : Bool := '0' ≤ c && c ≤ '?'

def isIntermediate (c : Char) : Bool := ' ' ≤ c && c ≤ '/'

def isFinal (c : Char) : Bool := '@' ≤ c && c ≤ '~'

/-- What follows the control sequence in front of the text, if there is one. -/
def rest? : List Char → Option (List Char)
  | e :: '[' :: cs =>
    if e = escape then
      match (cs.dropWhile isParameter).dropWhile isIntermediate with
      | c :: rest => if isFinal c then some rest else none
      | [] => none
    else none
  | _ => none

theorem length_dropWhile_le (p : Char → Bool) (cs : List Char) :
    (cs.dropWhile p).length ≤ cs.length := (List.dropWhile_suffix p).length_le

/-- A control sequence takes up some of the text. -/
theorem length_rest?_lt {cs rest : List Char} (h : rest? cs = some rest) :
    rest.length < cs.length := by
  unfold rest? at h
  split at h
  next e tail =>
    split at h
    · have shorter := Nat.le_trans
        (length_dropWhile_le isIntermediate (tail.dropWhile isParameter))
        (length_dropWhile_le isParameter tail)
      split at h
      next c after found =>
        rw [found] at shorter
        split at h
        · cases h
          simp only [List.length_cons] at shorter ⊢
          omega
        · contradiction
      · contradiction
    · contradiction
  · contradiction

def stripChars : List Char → List Char
  | [] => []
  | c :: cs =>
    match _h : rest? (c :: cs) with
    | some rest => stripChars rest
    | none => c :: stripChars cs
termination_by cs => cs.length
decreasing_by
  · exact length_rest?_lt _h
  · simp

def strip (s : String) : String := String.ofList (stripChars s.toList)

/-- Without an escape character there is nothing to leave out. -/
theorem stripChars_eq_self {cs : List Char} (h : escape ∉ cs) : stripChars cs = cs := by
  induction cs with
  | nil => rw [stripChars]
  | cons c cs ih =>
    simp only [List.mem_cons, not_or] at h
    have none : rest? (c :: cs) = none := by
      unfold rest?
      split
      next e tail eq => cases eq; rw [if_neg fun he => h.1 he.symm]
      · rfl
    rw [stripChars]
    split
    next found => rw [none] at found; contradiction
    · rw [ih h.2]

example : stripChars "a\x1b[1;31mb\x1b[c".toList = "ab".toList := by decide +kernel

end SchemaSync.Text.ControlSequence
