import Mathlib
import SchemaSync.Text.Percent

/-!
# Percent-encoding loses nothing

The written form of a byte can be told from what follows it: a byte that stands for itself is not `%`,
and every other one is written as `%` and two digits. So a list of bytes can be read back from its
written form, and with it the text whose UTF-8 form it is.
-/

namespace SchemaSync.Text.Percent

theorem hexDigit_inj : ∀ m < 16, ∀ n < 16, hexDigit m = hexDigit n → m = n := by decide

theorem isPlain_lt {b : UInt8} (h : isPlain b = true) : b.toNat < 0x80 := by
  unfold isPlain at h
  simp only [Bool.and_eq_true, decide_eq_true_eq] at h
  exact h.1

/-- A byte below `0x80` is a character of its own. -/
theorem toNat_ofNat_byte {b : UInt8} (h : b.toNat < 0x80) : (Char.ofNat b.toNat).toNat = b.toNat := by
  have hvalid : b.toNat.isValidChar := Or.inl (by omega)
  rw [Char.ofNat, dif_pos hvalid]
  rfl

/-- The percent sign never stands for itself. -/
theorem ofNat_ne_percent {b : UInt8} (h : isPlain b = true) : Char.ofNat b.toNat ≠ '%' := by
  intro hpercent
  unfold isPlain at h
  rw [hpercent] at h
  revert h
  simp [Char.isAlphanum, Char.isAlpha, Char.isUpper, Char.isLower, Char.isDigit]

theorem byte_eq_of_halves {a b : UInt8} (hhigh : a.toNat / 16 = b.toNat / 16)
    (hlow : a.toNat % 16 = b.toNat % 16) : a = b := by
  apply UInt8.toNat_inj.mp
  omega

/-- The written form of a byte determines the byte and where its written form ends. -/
theorem encodeByte_append_inj {a b : UInt8} {xs ys : List Char}
    (h : encodeByte a ++ xs = encodeByte b ++ ys) : a = b ∧ xs = ys := by
  have halt : a.toNat < 256 := a.toNat_lt
  have hblt : b.toNat < 256 := b.toNat_lt
  unfold encodeByte at h
  by_cases ha : isPlain a = true
  · by_cases hb : isPlain b = true
    · rw [if_pos ha, if_pos hb] at h
      obtain ⟨hchar, hrest⟩ := List.cons.inj h
      have hnat := congrArg Char.toNat hchar
      rw [toNat_ofNat_byte (isPlain_lt ha), toNat_ofNat_byte (isPlain_lt hb)] at hnat
      exact ⟨UInt8.toNat_inj.mp hnat, hrest⟩
    · rw [if_pos ha, if_neg hb] at h
      exact absurd (List.cons.inj h).1 (ofNat_ne_percent ha)
  · by_cases hb : isPlain b = true
    · rw [if_neg ha, if_pos hb] at h
      exact absurd (List.cons.inj h).1.symm (ofNat_ne_percent hb)
    · rw [if_neg ha, if_neg hb] at h
      obtain ⟨-, htail⟩ := List.cons.inj h
      obtain ⟨hhigh, htail⟩ := List.cons.inj htail
      obtain ⟨hlow, hrest⟩ := List.cons.inj htail
      have hhigh' := hexDigit_inj _ (by omega) _ (by omega) hhigh
      have hlow' := hexDigit_inj _ (by omega) _ (by omega) hlow
      exact ⟨byte_eq_of_halves hhigh' hlow', hrest⟩

theorem encodeByte_ne_nil (b : UInt8) : encodeByte b ≠ [] := by
  unfold encodeByte
  split <;> simp

theorem flatMap_encodeByte_injective :
    ∀ {as bs : List UInt8}, as.flatMap encodeByte = bs.flatMap encodeByte → as = bs
  | [], [], _ => rfl
  | [], b :: bs, h => by
    rw [List.flatMap_nil, List.flatMap_cons] at h
    exact absurd (List.append_eq_nil_iff.mp h.symm).1 (encodeByte_ne_nil b)
  | a :: as, [], h => by
    rw [List.flatMap_nil, List.flatMap_cons] at h
    exact absurd (List.append_eq_nil_iff.mp h).1 (encodeByte_ne_nil a)
  | a :: as, b :: bs, h => by
    rw [List.flatMap_cons, List.flatMap_cons] at h
    obtain ⟨hbyte, hrest⟩ := encodeByte_append_inj h
    rw [hbyte, flatMap_encodeByte_injective hrest]

/-- The bytes of a text determine its characters. -/
theorem flatMap_utf8EncodeChar_injective {cs ds : List Char}
    (h : cs.flatMap String.utf8EncodeChar = ds.flatMap String.utf8EncodeChar) : cs = ds := by
  have hdecoded : cs.utf8Encode.utf8Decode? = ds.utf8Encode.utf8Decode? := by
    rw [List.utf8Encode, List.utf8Encode, h]
  rw [List.utf8Decode?_utf8Encode, List.utf8Decode?_utf8Encode] at hdecoded
  exact congrArg Array.toList (Option.some.inj hdecoded)

theorem encodeChars_injective : Function.Injective encodeChars := by
  intro cs ds h
  have hbytes : ∀ l : List Char,
      encodeChars l = (l.flatMap String.utf8EncodeChar).flatMap encodeByte :=
    fun l => List.flatMap_assoc.symm
  rw [hbytes, hbytes] at h
  exact flatMap_utf8EncodeChar_injective (flatMap_encodeByte_injective h)

/-- Different texts have different percent-encoded forms. -/
theorem encode_injective : Function.Injective encode := by
  intro s t h
  have hchars := encodeChars_injective (String.ofList_inj.mp h)
  exact String.toList_inj.mp hchars

theorem toList_encode (s : String) : (encode s).toList = encodeChars s.toList :=
  String.toList_ofList

theorem comma_not_mem_encode (s : String) : ',' ∉ (encode s).toList := by
  rw [toList_encode]
  exact comma_not_mem_encodeChars s.toList

end SchemaSync.Text.Percent
