import SchemaSync.Number.Shortest
import SchemaSync.Proofs.Text.Reader

/-!
# The shape of numbers

An integer, a decimal number and a finite floating-point number are all written as a number is: an optional
minus, digits, an optional fraction and an optional exponent (`IsNumeral`). For floating-point numbers this
rests on the search for the shortest digits: it never comes up with no digit at all, since the grids that it
looks at start at the leading digit of the number (`decimal_pos`).

Behind the end of a number stands nothing that could belong to it, so a reader of numbers stops there
(`Reader.reads_numeral`).
-/

namespace SchemaSync

def IsDigits (cs : List Char) : Prop := cs ≠ [] ∧ ∀ c ∈ cs, c.isDigit = true

/-- A point and digits, or nothing. -/
inductive IsFraction : List Char → Prop
  | none : IsFraction []
  | some {ds : List Char} (h : IsDigits ds) : IsFraction ('.' :: ds)

/-- A sign of an exponent, which may be left out. -/
def IsSign (cs : List Char) : Prop := cs = [] ∨ cs = ['+'] ∨ cs = ['-']

/-- The letter of an exponent, its sign and digits, or nothing. -/
inductive IsExponent : List Char → Prop
  | none : IsExponent []
  | some {letter : Char} {sign ds : List Char} (hletter : letter = 'e' ∨ letter = 'E')
      (hsign : IsSign sign) (hds : IsDigits ds) : IsExponent (letter :: (sign ++ ds))

/-- An optional minus, digits, an optional fraction and an optional exponent. -/
inductive IsNumeral : List Char → Prop
  | intro {whole fraction exponent : List Char} (negative : Bool) (hwhole : IsDigits whole)
      (hfraction : IsFraction fraction) (hexponent : IsExponent exponent) :
      IsNumeral (Decimal.sign negative ++ (whole ++ (fraction ++ exponent)))

/-! ## Digits -/

theorem IsDigits.append {cs ds : List Char} (hc : IsDigits cs) (hd : ∀ d ∈ ds, d.isDigit = true) :
    IsDigits (cs ++ ds) := by
  refine ⟨by simp [hc.1], fun c h => ?_⟩
  rcases List.mem_append.mp h with h | h
  · exact hc.2 c h
  · exact hd c h

theorem isDigit_of_mem_zeros {n : Nat} : ∀ c ∈ List.replicate n '0', c.isDigit = true := by
  intro c hc
  rw [List.eq_of_mem_replicate hc]
  rfl

theorem isDigits_toDigits (n : Nat) : IsDigits (Nat.toDigits 10 n) :=
  ⟨Nat.toDigits_ne_nil, fun _ hc => Nat.isDigit_of_mem_toDigits (by decide) (by decide) hc⟩

theorem IsNumeral.digits {ds : List Char} (negative : Bool) (h : IsDigits ds) :
    IsNumeral (Decimal.sign negative ++ ds) := by
  simpa using IsNumeral.intro negative h .none .none

/-- Every integer is written as a number. -/
theorem isNumeral_int (i : Int) : IsNumeral (toString i).toList := by
  cases i with
  | ofNat n =>
      show IsNumeral n.repr.toList
      rw [Nat.toList_repr]
      exact .digits false (isDigits_toDigits n)
  | negSucc n =>
      show IsNumeral ("-" ++ (n + 1).repr).toList
      rw [String.toList_append, Nat.toList_repr]
      exact .digits true (isDigits_toDigits (n + 1))

/-! ## Decimal numbers -/

namespace Decimal

variable {ds : List Char} {place : Int}

/-- Digits with a point at or behind their end are digits. -/
theorem isDigits_point (h : IsDigits ds) (hplace : ds.length ≤ place) : IsDigits (point ds place) := by
  have hpos := List.length_pos_iff.mpr h.1
  rw [point, if_neg (by omega), if_pos (by omega)]
  exact h.append isDigit_of_mem_zeros

/-- Digits with a point before their end are digits and a fraction. -/
theorem isFraction_point (h : IsDigits ds) (hplace : place < ds.length) :
    ∃ whole fraction, point ds place = whole ++ fraction ∧ IsDigits whole ∧ IsFraction fraction := by
  unfold point
  by_cases hfront : place ≤ 0
  · rw [if_pos hfront]
    refine ⟨['0'], '.' :: (List.replicate place.natAbs '0' ++ ds), rfl, by simp [IsDigits], .some ?_⟩
    refine ⟨by simp [h.1], fun c hc => ?_⟩
    rcases List.mem_append.mp hc with hc | hc
    · exact isDigit_of_mem_zeros c hc
    · exact h.2 c hc
  · rw [if_neg hfront, if_neg (by omega)]
    refine ⟨ds.take place.toNat, '.' :: ds.drop place.toNat, rfl, ⟨?_, ?_⟩, .some ⟨?_, ?_⟩⟩
    · rw [Ne, List.take_eq_nil_iff, not_or]
      exact ⟨by omega, h.1⟩
    · exact fun c hc => h.2 c (List.mem_of_mem_take hc)
    · rw [Ne, List.drop_eq_nil_iff]
      omega
    · exact fun c hc => h.2 c (List.mem_of_mem_drop hc)

theorem isPositional_point (h : IsDigits ds) (place : Int) :
    ∃ whole fraction, point ds place = whole ++ fraction ∧ IsDigits whole ∧ IsFraction fraction := by
  by_cases hplace : place < ds.length
  · exact isFraction_point h hplace
  · exact ⟨point ds place, [], by simp, isDigits_point h (by omega), .none⟩

theorem isExponent_signed (i : Int) : IsExponent ('E' :: signed i) := by
  have hdigits := isDigits_toDigits i.natAbs
  by_cases hneg : i < 0
  · simpa [signed, hneg, digits] using IsExponent.some (.inr rfl) (.inr (.inr rfl)) hdigits
  · simpa [signed, hneg, digits] using IsExponent.some (.inr rfl) (.inr (.inl rfl)) hdigits

/-- Every finite decimal number is written as a number. -/
theorem isNumeral_chars {d : Decimal} (h : d.isFinite = true) : IsNumeral d.chars := by
  cases d with
  | finite negative n e =>
      have hdigits := isDigits_toDigits n
      unfold chars scientific
      dsimp only
      split
      · obtain ⟨whole, fraction, hpoint, hwhole, hfraction⟩ := isPositional_point hdigits
          (e + (digits n).length)
        rw [digits] at hpoint ⊢
        rw [hpoint]
        simpa using IsNumeral.intro negative hwhole hfraction .none
      · obtain ⟨whole, fraction, hpoint, hwhole, hfraction⟩ := isPositional_point hdigits 1
        rw [digits] at ⊢
        rw [hpoint, List.append_assoc]
        exact .intro negative hwhole hfraction (isExponent_signed _)
  | infinite negative => cases h
  | undefined negative signals payload => cases h

end Decimal

/-! ## Floating-point numbers -/

namespace Shortest

/-! ### The leading digit -/

/-- A number is at least some power of ten. -/
def Reaches (r : Ratio) (e : Int) : Prop := (onGrid 1 e).le r = true

variable {r : Ratio} {e : Int}

theorem reaches_iff_of_nonneg (h : 0 ≤ e) : Reaches r e ↔ Nat.pow 10 e.toNat * r.den ≤ r.num := by
  simp [Reaches, onGrid, h, Ratio.le]

theorem reaches_iff_of_neg (h : e < 0) : Reaches r e ↔ r.den ≤ r.num * Nat.pow 10 e.natAbs := by
  simp [Reaches, onGrid, Int.not_le.mpr h, Ratio.le]

theorem pow_ten_pos (k : Nat) : 0 < Nat.pow 10 k := Nat.pow_pos (by decide)

theorem pow_ten_mono {k l : Nat} (h : k ≤ l) : Nat.pow 10 k ≤ Nat.pow 10 l :=
  Nat.pow_le_pow_right (by decide) h

theorem pow_two_le_pow_ten {j k : Nat} (h : j ≤ 3 * k) : Nat.pow 2 j ≤ Nat.pow 10 k :=
  calc Nat.pow 2 j ≤ Nat.pow 2 (3 * k) := Nat.pow_le_pow_right (by decide) h
    _ = Nat.pow (Nat.pow 2 3) k := Nat.pow_mul 2 3 k
    _ ≤ Nat.pow 10 k := Nat.pow_le_pow_left (by decide) k

/-- What is at least one power of ten is at least every smaller one. -/
theorem Reaches.mono {l : Int} (h : Reaches r l) (hle : e ≤ l) : Reaches r e := by
  by_cases hl : 0 ≤ l
  · rw [reaches_iff_of_nonneg hl] at h
    by_cases he : 0 ≤ e
    · rw [reaches_iff_of_nonneg he]
      exact (Nat.mul_le_mul_right _ (pow_ten_mono (by omega))).trans h
    · rw [reaches_iff_of_neg (by omega)]
      calc r.den ≤ Nat.pow 10 l.toNat * r.den := Nat.le_mul_of_pos_left _ (pow_ten_pos _)
        _ ≤ r.num := h
        _ ≤ r.num * Nat.pow 10 e.natAbs := Nat.le_mul_of_pos_right _ (pow_ten_pos _)
  · rw [reaches_iff_of_neg (by omega)] at h ⊢
    exact h.trans (Nat.mul_le_mul_left _ (pow_ten_mono (by omega)))

/-- Where a number reaches a power of ten, its floor on the grid of that power is a digit or more. -/
theorem floorOnGrid_pos (hden : 0 < r.den) (h : Reaches r e) : 0 < floorOnGrid r e := by
  unfold floorOnGrid
  by_cases he : 0 ≤ e
  · rw [reaches_iff_of_nonneg he, Nat.mul_comm] at h
    rw [if_pos he]
    exact Nat.div_pos h (Nat.mul_pos hden (pow_ten_pos _))
  · rw [reaches_iff_of_neg (by omega)] at h
    rw [if_neg he]
    exact Nat.div_pos h hden

/-- The count of powers of ten below one is right, if there are enough of them to count. -/
theorem le_mul_powersBelowOne {fuel k : Nat} {r : Ratio} (h : r.den ≤ r.num * Nat.pow 10 k)
    (hk : k ≤ fuel) : r.den ≤ r.num * Nat.pow 10 (powersBelowOne r fuel) := by
  induction fuel generalizing r k with
  | zero =>
      obtain rfl := Nat.le_zero.mp hk
      exact h
  | succ fuel ih =>
      unfold powersBelowOne
      split
      · next hone => simpa using hone
      · next hone =>
        cases k with
        | zero => exact absurd (by simpa using h) hone
        | succ k =>
            have hstep := ih (r := ⟨r.num * 10, r.den⟩) (k := k) (by
              rw [Nat.mul_assoc, Nat.mul_comm 10]
              exact h) (by omega)
            rw [Nat.mul_assoc, Nat.mul_comm 10] at hstep
            exact hstep

/-- A number that is not too small reaches the power of ten of its leading digit. -/
theorem reaches_leadingExponent {k : Nat} (hden : 0 < r.den) (hsmall : r.den ≤ r.num * Nat.pow 10 k)
    (hk : k ≤ 400) : Reaches r (leadingExponent r) := by
  unfold leadingExponent
  split
  · next hone =>
    -- The whole part has as many digits as the leading exponent says.
    have hpos := Nat.div_pos hone hden
    have hlength := Nat.length_toDigits_pos (b := 10) (n := r.num / r.den)
    rw [reaches_iff_of_nonneg (by omega)]
    have hexponent : (((Nat.toDigits 10 (r.num / r.den)).length : Int) - 1).toNat =
        (Nat.toDigits 10 (r.num / r.den)).length - 1 := by omega
    rw [hexponent]
    have hpow : Nat.pow 10 ((Nat.toDigits 10 (r.num / r.den)).length - 1) ≤ r.num / r.den := by
      by_contra hlt
      cases hk : (Nat.toDigits 10 (r.num / r.den)).length - 1 with
      | zero =>
          rw [hk] at hlt
          exact hlt hpos
      | succ k =>
          rw [hk] at hlt
          have hshort := (Nat.length_toDigits_le_iff (by decide) (Nat.succ_pos k)).mpr
            (Nat.lt_of_not_le hlt)
          omega
    exact (Nat.mul_le_mul_right _ hpow).trans (Nat.div_mul_le_self _ _)
  · next hone =>
    have hcount := le_mul_powersBelowOne hsmall hk
    by_cases hzero : powersBelowOne r 400 = 0
    · rw [hzero] at hcount
      exact absurd (by simpa using hcount) hone
    · rw [reaches_iff_of_neg (by omega), Int.natAbs_neg, Int.natAbs_natCast]
      exact hcount

/-! ### The search -/

theorem floorOnGrid_le_of_coefficientOnGrid? {i : Interval} {n : Nat}
    (h : coefficientOnGrid? i e = some n) : floorOnGrid i.value e ≤ n := by
  unfold coefficientOnGrid? at h
  dsimp only at h
  split at h
  · split at h <;> cases h <;> omega
  · cases h
    exact Nat.le_refl _
  · cases h
    exact Nat.le_succ _
  · cases h

/-- The search finds a digit or more. -/
theorem search_pos {i : Interval} {leading : Int} (hden : 0 < i.value.den)
    (hreach : Reaches i.value leading) (fuel : Nat) {count : Nat} (hcount : 1 ≤ count) :
    0 < (search i leading fuel count).1 := by
  have hfloor : ∀ {count : Nat}, 1 ≤ count → 0 < floorOnGrid i.value (leading - count + 1) :=
    fun hcount => floorOnGrid_pos hden (hreach.mono (by omega))
  induction fuel generalizing count with
  | zero => exact hfloor hcount
  | succ fuel ih =>
      unfold search
      split
      · next n hn => exact (hfloor hcount).trans_le (floorOnGrid_le_of_coefficientOnGrid? hn)
      · exact ih (by omega)

/-- A positive number on a grid of powers of two is not too small. -/
theorem dyadic_bounds {n k : Nat} (hn : 0 < n) (he : -(3 * k : Int) ≤ e) :
    0 < (dyadic n e).den ∧ (dyadic n e).den ≤ (dyadic n e).num * Nat.pow 10 k := by
  unfold dyadic
  split
  · have hnum : 0 < n * Nat.pow 2 e.toNat := Nat.mul_pos hn (Nat.pow_pos (by decide))
    exact ⟨Nat.one_pos, Nat.mul_pos hnum (pow_ten_pos _)⟩
  · have hden : Nat.pow 2 e.natAbs ≤ Nat.pow 10 k := pow_two_le_pow_ten (by omega)
    exact ⟨Nat.pow_pos (by decide), hden.trans (Nat.le_mul_of_pos_left _ hn)⟩

/-- A number that is written with digits has one. -/
theorem decimal_pos {m : Nat} {q : Int} (tight : Bool) (hm : 0 < m) (hq : -1074 ≤ q) :
    0 < (decimal m q tight).1 := by
  obtain ⟨k, hk⟩ : ∃ k, k = 400 := ⟨_, rfl⟩
  obtain ⟨hden, hsmall⟩ := dyadic_bounds (n := 4 * m) (e := q - 2) (k := k) (by omega) (by omega)
  have hreach := reaches_leadingExponent hden hsmall hk.le
  exact search_pos hden hreach 17 (Nat.le_refl 1)

theorem bounds_of_classify {x : Float} {negative tight : Bool} {m : Nat} {q : Int}
    (h : classify x = .nonzero negative m q tight) : 0 < m ∧ -1074 ≤ q := by
  unfold classify at h
  dsimp only at h
  split at h
  · split at h <;> cases h
  · split at h
    · split at h
      · cases h
      · cases h
        exact ⟨by omega, by omega⟩
    · cases h
      exact ⟨Nat.lt_of_lt_of_le (Nat.pow_pos (by decide)) (Nat.le_add_left _ _), by omega⟩

/-! ### The layout -/

theorem digit_of_mem_trimZeros {ds : List Char} : ∀ c ∈ trimZeros ds, c ∈ ds := by
  intro c hc
  rw [trimZeros, List.mem_reverse] at hc
  exact List.mem_reverse.mp ((List.dropWhile_sublist _).mem hc)

/-- A number other than zero has a digit other than zero. -/
theorem trimZeros_toDigits_ne_nil {n : Nat} (hn : 0 < n) : trimZeros (Nat.toDigits 10 n) ≠ [] := by
  intro h
  rw [trimZeros, List.reverse_eq_nil_iff, List.dropWhile_eq_nil_iff] at h
  have hzeros : Nat.toDigits 10 n = List.replicate (Nat.toDigits 10 n).length '0' :=
    List.eq_replicate_of_mem fun c hc => by simpa using h c (List.mem_reverse.mpr hc)
  have hvalue := Nat.ofDigitChars_ten_toDigits (n := n)
  generalize Nat.toDigits 10 n = ds at hzeros hvalue
  rw [hzeros, Nat.ofDigitChars_replicate_zero, Nat.mul_zero] at hvalue
  omega

theorem isExponent_exponentChars (e : Int) : IsExponent ('e' :: exponentChars e) := by
  have hdigits : IsDigits ((if e.natAbs < 10 then ['0'] else []) ++ Nat.toDigits 10 e.natAbs) := by
    split
    · exact IsDigits.append (by simp [IsDigits]) (isDigits_toDigits _).2
    · exact isDigits_toDigits _
  unfold exponentChars
  split
  · show IsExponent ('e' :: (['-'] ++ (_ ++ _)))
    exact .some (.inl rfl) (.inr (.inr rfl)) hdigits
  · show IsExponent ('e' :: (['+'] ++ (_ ++ _)))
    exact .some (.inl rfl) (.inr (.inl rfl)) hdigits

theorem isNumeral_layout {n : Nat} (negative : Bool) (hn : 0 < n) (e : Int) :
    IsNumeral (Decimal.sign negative ++ layout n e) := by
  have hds : IsDigits (trimZeros (Nat.toDigits 10 n)) :=
    ⟨trimZeros_toDigits_ne_nil hn, fun c hc => (isDigits_toDigits n).2 c (digit_of_mem_trimZeros c hc)⟩
  unfold layout
  dsimp only
  generalize trimZeros (Nat.toDigits 10 n) = ds at hds
  generalize e + (Nat.toDigits 10 n).length - 1 = leading
  split
  · split
    · next hshort =>
      have hzero : IsFraction ['.', '0'] := .some (by simp [IsDigits])
      have hpoint := Decimal.isDigits_point hds hshort
      simpa using IsNumeral.intro negative hpoint hzero .none
    · next hlong =>
      obtain ⟨whole, fraction, hpoint, hwhole, hfraction⟩ :=
        Decimal.isFraction_point hds (Int.not_le.mp hlong)
      rw [hpoint]
      simpa using IsNumeral.intro negative hwhole hfraction .none
  · have hexponent := isExponent_exponentChars leading
    rcases ds with - | ⟨d, - | ⟨d', ds⟩⟩
    · exact absurd rfl hds.1
    · simpa using IsNumeral.intro negative hds .none hexponent
    · have hfirst : IsDigits [d] := ⟨by simp, by simpa using hds.2 d (by simp)⟩
      have hothers : IsDigits (d' :: ds) := ⟨by simp, fun c hc => hds.2 c (List.mem_cons_of_mem d hc)⟩
      simpa using IsNumeral.intro negative hfirst (.some hothers) hexponent

/-- Every finite floating-point number is written as a number. -/
theorem isNumeral_text {x : Float} (h : isFinite x = true) : IsNumeral (text x).toList := by
  unfold isFinite at h
  unfold text
  cases hx : classify x with
  | notANumber => simp [hx] at h
  | infinite negative => simp [hx] at h
  | zero negative =>
      have hzero : IsNumeral (Decimal.sign negative ++ (['0'] ++ (['.', '0'] ++ []))) :=
        .intro negative (by simp [IsDigits]) (.some (by simp [IsDigits])) .none
      cases negative <;> exact hzero
  | nonzero negative m q tight =>
      obtain ⟨hm, hq⟩ := bounds_of_classify hx
      dsimp only
      rw [String.toList_ofList]
      exact isNumeral_layout negative (decimal_pos tight hm hq) _

end Shortest

/-! ## Reading numbers -/

/-- A character that a number goes on with. -/
def inNumber (c : Char) : Bool := c.isDigit || c == '.' || c == 'e' || c == 'E'

namespace Reader

def char (p : Char → Bool) : Reader Char
  | c :: cs => if p c then some (c, cs) else none
  | [] => none

variable {p : Char → Bool} {after : List Char → Prop}

theorem reads_char {c : Char} (h : p c = true) : (char p).Reads [c] c after := fun _ _ => if_pos h

theorem refuses_char (h : ∀ rest, after rest → Ahead (p · = false) rest) : (char p).Refuses after := by
  intro rest hrest
  cases rest with
  | nil => rfl
  | cons c cs => exact if_neg (by simpa using h _ hrest)

/-- Digits begin with a digit. -/
theorem ahead_digits {ds : List Char} (h : IsDigits ds) (rest : List Char) :
    Ahead (·.isDigit = true) (ds ++ rest) := by
  obtain ⟨hne, hdigit⟩ := h
  cases ds with
  | nil => exact absurd rfl hne
  | cons d ds => exact ahead_cons.mpr (hdigit d List.mem_cons_self)

def digits : Reader Unit := do
  let _ ← char Char.isDigit
  (fun _ => ()) <$> many (char Char.isDigit)

/-- Digits are read up to where no digit follows. -/
theorem reads_digits {ds : List Char} (h : IsDigits ds) :
    digits.Reads ds () (Ahead (·.isDigit = false)) := by
  obtain ⟨hne, hdigit⟩ := h
  cases ds with
  | nil => exact absurd rfl hne
  | cons d ds =>
      have hchar : ∀ c ∈ d :: ds, (char Char.isDigit).Reads [c] c fun _ => True :=
        fun c hc => reads_char (hdigit c hc)
      have hmany : Reads (many (char Char.isDigit)) (ds.flatMap fun c => [c]) ds
          (Ahead (·.isDigit = false)) :=
        Reads.many (fun c hc => hchar c (List.mem_cons_of_mem d hc)) (by simp) (fun _ _ _ => trivial)
          (fun _ _ => trivial) (refuses_char fun _ h => h)
      rw [List.flatMap_singleton'] at hmany
      exact (hchar d List.mem_cons_self).bind hmany.map fun _ _ => trivial

def optional (r : Reader Unit) : Reader Unit := r <|> pure ()

variable {r : Reader Unit} {t : List Char}

theorem Reads.optional (h : r.Reads t () after) : (Reader.optional r).Reads t () after := h.orElse

theorem reads_optional_nil (h : r.Refuses after) : (optional r).Reads [] () after :=
  Reads.orElse_right (fun _ ⟨rest, hrest, hcs⟩ => hcs ▸ h rest hrest) (reads_pure ())

def fraction : Reader Unit := do
  word "."
  digits

def exponent : Reader Unit := do
  let _ ← char fun c => c == 'e' || c == 'E'
  optional (word "+" <|> word "-")
  digits

def numeral : Reader Unit := do
  optional (word "-")
  digits
  optional fraction
  optional exponent

theorem reads_fraction {cs : List Char} (h : IsFraction cs) :
    (optional fraction).Reads cs () (Ahead fun c => c.isDigit = false ∧ c ≠ '.') := by
  cases h with
  | none => exact reads_optional_nil (refuses_word (c := '.') rfl (by simp)).bind
  | some hds => exact (reads_word_bind ((reads_digits hds).mono fun _ h => h.mono fun _ hc => hc.1)).optional

theorem reads_minus (negative : Bool) :
    (optional (word "-")).Reads (Decimal.sign negative) () (Ahead (·.isDigit = true)) := by
  cases negative with
  | false => exact reads_optional_nil (refuses_word rfl (by decide))
  | true => exact (reads_word "-").optional

theorem reads_sign {cs : List Char} (h : IsSign cs) :
    (optional (word "+" <|> word "-")).Reads cs () (Ahead (·.isDigit = true)) := by
  rcases h with rfl | rfl | rfl
  · exact reads_optional_nil ((refuses_word rfl (by decide)).orElse (refuses_word rfl (by decide)))
  · exact (reads_word "+").orElse.optional
  · exact (Reads.orElse_right (fun _ ⟨_, _, hcs⟩ => hcs ▸ rfl) (reads_word "-")).optional

theorem reads_exponent {cs : List Char} (h : IsExponent cs) :
    (optional exponent).Reads cs () (Ahead (inNumber · = false)) := by
  cases h with
  | none =>
      refine reads_optional_nil (refuses_char fun _ h => h.mono fun c hc => ?_).bind
      simp [inNumber] at hc
      simp [hc]
  | some hletter hsign hds =>
      have hdigits : digits.Reads _ () (Ahead (inNumber · = false)) :=
        (reads_digits hds).mono fun _ h => h.mono fun c hc => by simp [inNumber] at hc; simp [hc]
      have hbody := (reads_sign hsign).bind (f := fun _ => digits) hdigits fun rest _ => ahead_digits hds rest
      have hchar : (char fun c => c == 'e' || c == 'E').Reads _ _ fun _ => True :=
        reads_char (by simpa using hletter)
      exact (hchar.bind hbody fun _ _ => trivial).optional

/-- Behind the whole part and the fraction stands neither a digit nor a point. -/
theorem ahead_exponent {cs rest : List Char} (h : IsExponent cs) (hrest : Ahead (inNumber · = false) rest) :
    Ahead (fun c => c.isDigit = false ∧ c ≠ '.') (cs ++ rest) := by
  cases h with
  | none => exact hrest.mono fun c hc => by simp [inNumber] at hc; simp [hc]
  | some hletter => rcases hletter with rfl | rfl <;> simp

theorem ahead_fraction {cs rest : List Char} (h : IsFraction cs)
    (hrest : Ahead (fun c => c.isDigit = false ∧ c ≠ '.') rest) :
    Ahead (·.isDigit = false) (cs ++ rest) := by
  cases h with
  | none => exact hrest.mono fun _ hc => hc.1
  | some _ => simp

/-- A number begins with a minus or with a digit. -/
theorem ahead_numeral {cs : List Char} (h : IsNumeral cs) (rest : List Char) :
    Ahead (fun c => c = '-' ∨ c.isDigit = true) (cs ++ rest) := by
  obtain ⟨negative, hwhole, hfraction, hexponent⟩ := h
  cases negative with
  | true => simp [Decimal.sign]
  | false =>
      simp only [Decimal.sign, Bool.false_eq_true, if_false, List.nil_append, List.append_assoc]
      exact (ahead_digits hwhole _).mono fun _ hc => .inr hc

/-- A number is read up to where it does not go on. -/
theorem reads_numeral {cs : List Char} (h : IsNumeral cs) :
    (consumed numeral).Reads cs cs (Ahead (inNumber · = false)) := by
  obtain ⟨negative, hwhole, hfraction, hexponent⟩ := h
  have hparts := (reads_fraction hfraction).bind (f := fun _ => optional exponent)
    (reads_exponent hexponent) fun rest hrest => ahead_exponent hexponent hrest
  have hpositive := (reads_digits hwhole).bind (f := fun _ => _) hparts fun rest hrest => by
    rw [List.append_assoc]
    exact ahead_fraction hfraction (ahead_exponent hexponent hrest)
  exact ((reads_minus negative).bind (f := fun _ => _) hpositive fun rest _ => by
    rw [List.append_assoc]
    exact ahead_digits hwhole _).consumed

end Reader
end SchemaSync
