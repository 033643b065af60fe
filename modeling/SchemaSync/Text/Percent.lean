/-!
# Percent-encoding

A text is encoded by the bytes of its UTF-8 form. ASCII letters, digits and `_`, `.`, `-`, `~` stand
for themselves; every other byte is written as `%` and two upper-case hexadecimal digits. No encoded
text holds a comma or a space, so encoded texts can be listed with such a delimiter.
-/

namespace SchemaSync.Text.Percent

/-- Whether a byte stands for itself. -/
def isPlain (b : UInt8) : Bool :=
  let c := Char.ofNat b.toNat
  b.toNat < 0x80 && (c.isAlphanum || c == '_' || c == '.' || c == '-' || c == '~')

/-- An upper-case hexadecimal digit. -/
def hexDigit (n : Nat) : Char := (Nat.digitChar n).toUpper

def encodeByte (b : UInt8) : List Char :=
  if isPlain b then [Char.ofNat b.toNat]
  else ['%', hexDigit (b.toNat / 16), hexDigit (b.toNat % 16)]

def encodeChars (cs : List Char) : List Char :=
  cs.flatMap fun c => (String.utf8EncodeChar c).flatMap encodeByte

def encode (s : String) : String := String.ofList (encodeChars s.toList)

/-- The characters that an encoded text may hold. -/
def isEncodedChar (c : Char) : Bool :=
  c.isAlphanum || c == '_' || c == '.' || c == '-' || c == '~' || c == '%'

theorem isEncodedChar_hexDigit : ∀ n < 16, isEncodedChar (hexDigit n) = true := by decide

theorem isEncodedChar_of_mem_encodeByte {b : UInt8} {c : Char} (h : c ∈ encodeByte b) :
    isEncodedChar c = true := by
  simp only [encodeByte] at h
  split at h
  · next hb =>
    cases List.mem_singleton.1 h
    simp only [isPlain, Bool.and_eq_true, decide_eq_true_eq] at hb
    simp only [isEncodedChar, Bool.or_eq_true] at hb ⊢
    exact Or.inl hb.2
  · have hb : b.toNat < 256 := b.toNat_lt
    simp only [List.mem_cons, List.not_mem_nil, or_false] at h
    rcases h with rfl | rfl | rfl
    · decide
    · exact isEncodedChar_hexDigit _ (by omega)
    · exact isEncodedChar_hexDigit _ (by omega)

/-- Encoding writes only letters, digits and `_.-~%`. -/
theorem isEncodedChar_of_mem_encodeChars {cs : List Char} {c : Char} (h : c ∈ encodeChars cs) :
    isEncodedChar c = true := by
  simp only [encodeChars, List.mem_flatMap] at h
  obtain ⟨_, _, _, _, hc⟩ := h
  exact isEncodedChar_of_mem_encodeByte hc

/-- No comma occurs in an encoded text. -/
theorem comma_not_mem_encodeChars (cs : List Char) : ',' ∉ encodeChars cs := fun h =>
  absurd (isEncodedChar_of_mem_encodeChars h) (by decide)

end SchemaSync.Text.Percent
