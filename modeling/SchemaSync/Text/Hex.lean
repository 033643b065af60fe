import SchemaSync.Text.Blank
import SchemaSync.Text.Digit

/-!
# Hexadecimal text

Numbers by a fixed count of lower-case hexadecimal digits, and byte strings by two digits a byte. Reading
takes the digits in either case; a byte string that cannot be read is refused with the place of the first
character that does not belong. The main statement: the written form of a byte string reads back as it.
-/

namespace SchemaSync.Text.Hex

/-! ### Writing -/

/-- The last `width` lower-case hexadecimal digits of a number, with leading zeros. -/
def digits : Nat → Nat → List Char
  | 0, _ => []
  | width + 1, n => digits width (n / 16) ++ [Nat.digitChar (n % 16)]

theorem length_digits : ∀ width n, (digits width n).length = width
  | 0, _ => rfl
  | width + 1, n => by simp [digits, length_digits width]

def ofBytes (bs : List UInt8) : List Char := bs.flatMap fun b => digits 2 b.toNat

/-! ### Reading -/

def value? (c : Char) : Option Nat :=
  if c.isDigit then some (c.toNat - '0'.toNat)
  else if 'a' ≤ c ∧ c ≤ 'f' then some (c.toNat - 'a'.toNat + 10)
  else if 'A' ≤ c ∧ c ≤ 'F' then some (c.toNat - 'A'.toNat + 10)
  else none

/-- Whether a character may stand between two bytes: a space or one of the controls that lay out a line. -/
def isSpacing (c : Char) : Bool := c == ' ' || (decide ('\t' ≤ c) && decide (c ≤ '\r'))

/-- The bytes that a text spells by two digits each, with spacing between them; or the place, counted from
`place` on, where a digit is missing. -/
def readBytes (place : Nat) : List Char → Except Nat (List UInt8)
  | [] => pure []
  | a :: rest =>
    if isSpacing a then readBytes (place + 1) rest
    else
      match value? a, rest with
      | none, _ => throw place
      | some _, [] => throw (place + 1)
      | some high, b :: rest =>
        match value? b with
        | none => throw (place + 1)
        | some low => do pure (UInt8.ofNat (16 * high + low) :: (← readBytes (place + 2) rest))

/-- The bytes that a text spells, or the place of the first character that keeps it from spelling some. A
character beyond ASCII does so before any other. -/
def bytes (cs : List Char) : Except Nat (List UInt8) :=
  match cs.findIdx? fun c => decide (0x80 ≤ c.toNat) with
  | some place => throw place
  | none => readBytes 0 cs

/-- The value of digits with single underscores between them, after the value `n` of those before them;
`opens` tells whether a digit has to come next. -/
def readDigits? (n : Nat) (opens : Bool) : List Char → Option Nat
  | [] => if opens then none else some n
  | c :: cs =>
    if c = '_' then (if opens then none else readDigits? n true cs)
    else (value? c).bind fun d => readDigits? (16 * n + d) false cs

/-- What follows the mark `0x` in front of digits, and an underscore after it, if they are there. -/
def dropMark : List Char → List Char
  | '0' :: x :: cs =>
    if x = 'x' ∨ x = 'X' then (if cs.head? = some '_' then cs.drop 1 else cs) else '0' :: x :: cs
  | cs => cs

/-- The number that a text spells with digits of any script. Padding may stand around it, a plus sign and
the mark `0x` before the digits. -/
def number? (cs : List Char) : Option Nat :=
  match (Blank.dropPadding cs).map Digit.plain with
  | '+' :: cs => readDigits? 0 true (dropMark cs)
  | cs => readDigits? 0 true (dropMark cs)

example : number? " +0x_1_f ".toList = some 31 := by decide
example : number? "0x".toList = none := by decide

theorem value?_digitChar : ∀ n < 16, value? (Nat.digitChar n) = some n := by decide

theorem not_isSpacing_digitChar : ∀ n < 16, isSpacing (Nat.digitChar n) = false := by decide

/-- What is written reads back. -/
theorem readBytes_ofBytes (place : Nat) (bs : List UInt8) : readBytes place (ofBytes bs) = .ok bs := by
  induction bs generalizing place with
  | nil => rfl
  | cons b bs ih =>
    have hb : b.toNat < 256 := b.toNat_lt
    have high : b.toNat / 16 % 16 = b.toNat / 16 := by omega
    have joined : 16 * (b.toNat / 16) + b.toNat % 16 = b.toNat := by omega
    have written : ofBytes (b :: bs) =
        Nat.digitChar (b.toNat / 16) :: Nat.digitChar (b.toNat % 16) :: ofBytes bs := by
      simp [ofBytes, digits, high]
    have first := value?_digitChar (b.toNat / 16) (by omega)
    have second := value?_digitChar (b.toNat % 16) (by omega)
    have digit := not_isSpacing_digitChar (b.toNat / 16) (by omega)
    rw [written]
    unfold readBytes
    simp only [digit, first, second, ih, Bool.false_eq_true, if_false]
    show Except.ok (UInt8.ofNat (16 * (b.toNat / 16) + b.toNat % 16) :: bs) = .ok (b :: bs)
    rw [joined, UInt8.ofNat_toNat]

end SchemaSync.Text.Hex
