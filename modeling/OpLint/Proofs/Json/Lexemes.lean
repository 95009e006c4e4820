import OpLint.Json.Token
import OpLint.Json.Value

/-!
# Reading the lexemes of a written text

A written text is made of punctuation, words, quoted strings, numbers and blanks. Each
of them is read back as one token, or as none if it is blank, whatever follows it. Only a
number asks what follows: the text after it must not go on with it.
-/

namespace OpLint.Json.Token

open Decimal (Numeral)

variable {cs rest : List Char} {c : Char}

/-! ## One token and the rest -/

theorem ofText_blank (h : isBlank c = true) : ofText (c :: cs) = ofText cs := by
  rw [ofText, if_pos h]

theorem ofText_scan {t : Token} (hblank : isBlank c = false)
    (h : scan (c :: cs) = some (t, rest)) : ofText (c :: cs) = t :: ofText rest := by
  rw [ofText, if_neg (by simp [hblank])]
  split
  · simp_all
  · next h' =>
      rw [h] at h'
      cases h'
      rfl

@[simp]
theorem ofText_openArray : ofText ('[' :: cs) = .openArray :: ofText cs :=
  ofText_scan rfl rfl

@[simp]
theorem ofText_closeArray : ofText (']' :: cs) = .closeArray :: ofText cs :=
  ofText_scan rfl rfl

@[simp]
theorem ofText_openObject : ofText ('\x7b' :: cs) = .openObject :: ofText cs :=
  ofText_scan rfl rfl

@[simp]
theorem ofText_closeObject : ofText ('\x7d' :: cs) = .closeObject :: ofText cs :=
  ofText_scan rfl rfl

@[simp]
theorem ofText_comma : ofText (',' :: cs) = .comma :: ofText cs :=
  ofText_scan rfl rfl

@[simp]
theorem ofText_colon : ofText (':' :: cs) = .colon :: ofText cs :=
  ofText_scan rfl rfl

theorem ofText_null : ofText ("null".toList ++ cs) = .null :: ofText cs :=
  ofText_scan rfl rfl

theorem ofText_true : ofText ("true".toList ++ cs) = .bool true :: ofText cs :=
  ofText_scan rfl rfl

theorem ofText_false : ofText ("false".toList ++ cs) = .bool false :: ofText cs :=
  ofText_scan rfl rfl

theorem ofText_space : ofText (' ' :: cs) = ofText cs :=
  ofText_blank rfl

theorem ofText_blanks {blanks : List Char} (h : ∀ c ∈ blanks, isBlank c = true) :
    ofText (blanks ++ cs) = ofText cs := by
  induction blanks with
  | nil => rfl
  | cons c blanks ih =>
      rw [List.cons_append, ofText_blank (h c List.mem_cons_self)]
      exact ih fun c hc => h c (List.mem_cons_of_mem _ hc)

theorem ofText_newline (depth : Nat) :
    ofText ((Value.newline depth).toList ++ cs) = ofText cs := by
  refine ofText_blanks fun c hc => ?_
  simp only [Value.newline, String.toList_append, String.toList_ofList, List.mem_append,
    List.mem_replicate] at hc
  rcases hc with hc | ⟨-, rfl⟩
  · obtain rfl : c = '\n' := by simpa using hc
    rfl
  · rfl

/-! ## Strings -/

theorem hexValue?_hexDigit {n : Nat} (h : n < 16) : hexValue? (hexDigit n) = some n := by
  revert n
  decide

theorem scanString_escape {seen : List Char} {whole : Bool}
    (h : scanEscape cs = some (some c, rest)) :
    scanString seen whole ('\\' :: cs) = scanString (c :: seen) whole rest := by
  rw [scanString]
  split
  · simp_all
  · next h' =>
      rw [h] at h'
      cases h'
      rfl
  · simp_all

/-- The four digits of a control character. -/
theorem scanEscape_control (h : c.toNat < 0x20) :
    scanEscape ('u' :: '0' :: '0' :: hexDigit (c.toNat / 16) :: hexDigit (c.toNat % 16) :: cs) =
      some (some c, cs) := by
  have hzero : hexValue? '0' = some 0 := by decide
  have hunit : scanUnit ('0' :: '0' :: hexDigit (c.toNat / 16) :: hexDigit (c.toNat % 16) :: cs) =
      some (c.toNat, cs) := by
    rw [scanUnit, hzero, hexValue?_hexDigit (by omega), hexValue?_hexDigit (by omega)]
    show some (((0 * 16 + 0) * 16 + c.toNat / 16) * 16 + c.toNat % 16, cs) = _
    rw [show ((0 * 16 + 0) * 16 + c.toNat / 16) * 16 + c.toNat % 16 = c.toNat by omega]
  have hhigh : isHighSurrogate c.toNat = false := by
    simp only [isHighSurrogate, Bool.and_eq_false_iff, decide_eq_false_iff_not]
    omega
  have hlow : isLowSurrogate c.toNat = false := by
    simp only [isLowSurrogate, Bool.and_eq_false_iff, decide_eq_false_iff_not]
    omega
  simp [scanEscape, hunit, hhigh, hlow, Char.ofNat_toNat]

/-- A character that was escaped for writing is read as itself. -/
theorem scanString_escapeChar (seen : List Char) (whole : Bool) :
    scanString seen whole (escapeChar c ++ cs) = scanString (c :: seen) whole cs := by
  rw [escapeChar]
  split
  · next h => rw [h]; exact scanString_escape rfl
  split
  · next h => rw [h]; exact scanString_escape rfl
  split
  · next h => rw [h]; exact scanString_escape rfl
  split
  · next h => rw [h]; exact scanString_escape rfl
  split
  · next h => rw [h]; exact scanString_escape rfl
  split
  · next h => rw [h]; exact scanString_escape rfl
  split
  · next h => rw [h]; exact scanString_escape rfl
  split
  · next h => exact scanString_escape (scanEscape_control h)
  · next hquote hslash _ _ _ _ _ hcontrol =>
      rw [List.singleton_append, scanString, if_neg hcontrol]
      · simpa using hquote
      · simpa using hslash

theorem scanString_flatMap (seen s : List Char) :
    scanString seen true (s.flatMap escapeChar ++ '"' :: cs) =
      some (.string (some (.ofList (seen.reverse ++ s))), cs) := by
  induction s generalizing seen with
  | nil => simp [scanString]
  | cons c s ih =>
      rw [List.flatMap_cons, List.append_assoc, scanString_escapeChar, ih]
      simp

theorem ofText_quote (s : String) :
    ofText ((quote s).toList ++ cs) = .string (some s) :: ofText cs := by
  have htext : (quote s).toList ++ cs = '"' :: (s.toList.flatMap escapeChar ++ '"' :: cs) := by
    simp [quote]
  rw [htext]
  refine ofText_scan rfl ?_
  rw [scan, scanString_flatMap]
  simp

/-! ## Numbers -/

/-- Whether a character after a number would be read as a part of it. -/
def continuesNumber (c : Char) : Bool :=
  c.isDigit || c = '.' || c = 'e' || c = 'E'

/-- A number that is followed by this text ends there. -/
def EndsNumber (cs : List Char) : Prop :=
  ∀ c ∈ cs.head?, continuesNumber c = false

theorem EndsNumber.cons (h : continuesNumber c = false) : EndsNumber (c :: cs) := by
  simpa [EndsNumber] using h

theorem endsNumber_nil : EndsNumber [] := by
  simp [EndsNumber]

theorem isDigit_of_mem_toDigits {n : Nat} (h : c ∈ Nat.toDigits 10 n) : c.isDigit = true :=
  Nat.isDigit_of_mem_toDigits (by decide) (by decide) h

/-- A number is written without a leading zero. -/
theorem head?_toDigits_ne_zero {n : Nat} (h : 0 < n) : (Nat.toDigits 10 n).head? ≠ some '0' := by
  have hdigit : ∀ d < 10, 0 < d → [Nat.digitChar d].head? ≠ some '0' := by decide
  induction n using Nat.strongRecOn with
  | ind n ih =>
      rcases Nat.lt_or_ge n 10 with hn | hn
      · rw [Nat.toDigits_of_lt_base hn]
        exact hdigit n hn h
      · rw [Nat.toDigits_of_base_le (by decide) hn, List.head?_append,
          Option.or_of_isSome (by simp [Nat.toDigits_ne_nil])]
        exact ih (n / 10) (by omega) (by omega)

theorem scanWhole_toDigits (n : Nat) (h : EndsNumber cs) :
    scanWhole (Nat.toDigits 10 n ++ cs) = some (Nat.toDigits 10 n, cs) := by
  have hall : ∀ c ∈ Nat.toDigits 10 n, c.isDigit = true := fun c => isDigit_of_mem_toDigits
  have hnext : ∀ c ∈ cs.head?, c.isDigit = false := fun c hc => by
    have := h c hc
    simp_all [continuesNumber]
  have htake : cs.takeWhile Char.isDigit = [] ∧ cs.dropWhile Char.isDigit = cs := by
    cases cs with
    | nil => exact ⟨rfl, rfl⟩
    | cons c cs => simp [hnext c rfl]
  have hzero : (Nat.toDigits 10 n).head? ≠ some '0' ∨ (Nat.toDigits 10 n).length = 1 := by
    rcases Nat.eq_zero_or_pos n with rfl | hn
    · exact Or.inr rfl
    · exact Or.inl (head?_toDigits_ne_zero hn)
  rw [scanWhole, scanDigits, List.takeWhile_append_of_pos hall, List.dropWhile_append_of_pos hall,
    htake.1, htake.2, List.append_nil]
  simpa [Nat.toDigits_ne_nil] using hzero

theorem scanNumeral_toDigits (n : Nat) (h : EndsNumber cs) :
    scanNumeral false (Nat.toDigits 10 n ++ cs) =
      some (.number (Numeral.value ⟨false, Nat.toDigits 10 n, [], none⟩), cs) := by
  have hfraction : scanFraction cs = some ([], cs) := by
    cases cs with
    | nil => rfl
    | cons c cs =>
        rw [scanFraction]
        rintro cs' heq
        cases heq
        exact absurd (h '.' rfl) (by decide)
  have hexponent : scanExponent cs = some (none, cs) := by
    cases cs with
    | nil => rfl
    | cons c cs =>
        have hc := h c rfl
        have hne : ¬(c = 'e' ∨ c = 'E') := by simp_all [continuesNumber]
        simp [scanExponent, hne]
  simp [scanNumeral, scanWhole_toDigits n h, hfraction, hexponent]

theorem scan_digit (h : c.isDigit = true) : scan (c :: cs) = scanNumeral false (c :: cs) := by
  unfold scan
  split
  case h_13 => rfl
  case h_1 heq => cases heq
  all_goals
    next heq =>
      obtain ⟨rfl, -⟩ := List.cons.inj heq
      exact absurd h (by decide)

theorem isBlank_digit (h : c.isDigit = true) : isBlank c = false := by
  rw [isBlank]
  simp only [Bool.or_eq_false_iff, decide_eq_false_iff_not]
  refine ⟨⟨⟨?_, ?_⟩, ?_⟩, ?_⟩ <;>
  · rintro rfl
    exact absurd h (by decide)

theorem digitsValue_toDigits (n : Nat) : Decimal.digitsValue (Nat.toDigits 10 n) = n := by
  have hfold := Nat.ofDigitChars_ten_toDigits (n := n)
  rw [Nat.ofDigitChars_eq_foldl] at hfold
  simpa only [Decimal.digitsValue, Decimal.digitValue, Nat.mul_comm] using hfold

/-- The token of a number; beyond 64 bits it is a double, if it is anything. -/
def ofNat (n : Nat) : Token :=
  .number (Numeral.value ⟨false, Nat.toDigits 10 n, [], none⟩)

theorem ofNat_eq {n : Nat} (h : n ≤ Decimal.greatestWord) :
    ofNat n = .number (some (.natural n)) := by
  rw [ofNat, Numeral.value, digitsValue_toDigits]
  simp [h]

theorem ofText_toString (n : Nat) (h : EndsNumber cs) :
    ofText ((toString n).toList ++ cs) = ofNat n :: ofText cs := by
  have hscan := scanNumeral_toDigits n h
  rw [Nat.toString_eq_repr, Nat.toList_repr]
  cases hdigits : Nat.toDigits 10 n with
  | nil => exact absurd hdigits Nat.toDigits_ne_nil
  | cons c ds =>
      have hc : c.isDigit = true := isDigit_of_mem_toDigits (hdigits ▸ List.mem_cons_self)
      rw [hdigits] at hscan
      rw [List.cons_append] at hscan ⊢
      rw [ofText_scan (isBlank_digit hc) ((scan_digit hc).trans hscan), ofNat, hdigits]

end OpLint.Json.Token
