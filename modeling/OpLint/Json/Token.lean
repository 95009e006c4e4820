import OpLint.Decimal.Double

/-!
# Tokens of a JSON text

A text is cut into tokens from the left. Where no token fits, the list ends with
`stray`; a text that ends within a token ends the same way. A token may be well
formed and still denote nothing: a string that holds half a surrogate pair, and a
number beyond the greatest double. Such a token carries no value and may stand
where nobody asks for it.
-/

namespace OpLint.Json

open Decimal (Numeral Number)

inductive Token
  | openArray
  | closeArray
  | openObject
  | closeObject
  | comma
  | colon
  | null
  | bool (b : Bool)
  | number (n? : Option Number)
  | string (s? : Option String)
  | stray
  deriving Repr, Inhabited

namespace Token

def isBlank (c : Char) : Bool :=
  c = ' ' || c = '\t' || c = '\n' || c = '\r'

/-! ## Strings -/

def hexValue? (c : Char) : Option Nat :=
  if '0' ≤ c ∧ c ≤ '9' then some (c.toNat - '0'.toNat)
  else if 'a' ≤ c ∧ c ≤ 'f' then some (c.toNat - 'a'.toNat + 10)
  else if 'A' ≤ c ∧ c ≤ 'F' then some (c.toNat - 'A'.toNat + 10)
  else none

/-- Four hexadecimal digits at the head of a text. -/
def scanUnit : List Char → Option (Nat × List Char)
  | a :: b :: c :: d :: rest => do
    let a ← hexValue? a
    let b ← hexValue? b
    let c ← hexValue? c
    let d ← hexValue? d
    return (((a * 16 + b) * 16 + c) * 16 + d, rest)
  | _ => none

def isHighSurrogate (n : Nat) : Bool := 0xD800 ≤ n && n < 0xDC00

def isLowSurrogate (n : Nat) : Bool := 0xDC00 ≤ n && n < 0xE000

def joinSurrogates (high low : Nat) : Char :=
  .ofNat (0x10000 + (high - 0xD800) * 0x400 + (low - 0xDC00))

/-- The second half of a surrogate pair, spelled out in full. -/
def scanLow : List Char → Option (Nat × List Char)
  | '\\' :: 'u' :: rest => (scanUnit rest).filter fun (low, _) => isLowSurrogate low
  | _ => none

/-- What follows a backslash: the character it stands for, or none for half a
surrogate pair, and the rest of the text. -/
def scanEscape : List Char → Option (Option Char × List Char)
  | 'u' :: rest => do
    let (n, rest) ← scanUnit rest
    if isHighSurrogate n then
      match scanLow rest with
      | some (low, rest) => return (some (joinSurrogates n low), rest)
      | none => return (none, rest)
    else if isLowSurrogate n then return (none, rest)
    else return (some (.ofNat n), rest)
  | '"' :: rest => some (some '"', rest)
  | '\\' :: rest => some (some '\\', rest)
  | '/' :: rest => some (some '/', rest)
  | 'b' :: rest => some (some '\x08', rest)
  | 'f' :: rest => some (some '\x0c', rest)
  | 'n' :: rest => some (some '\n', rest)
  | 'r' :: rest => some (some '\r', rest)
  | 't' :: rest => some (some '\t', rest)
  | _ => none

theorem scanUnit_length {cs rest : List Char} {n : Nat} (h : scanUnit cs = some (n, rest)) :
    rest.length < cs.length := by
  match cs with
  | [] | [_] | [_, _] | [_, _, _] => simp [scanUnit] at h
  | _ :: _ :: _ :: _ :: _ =>
    simp only [scanUnit, Option.bind_eq_bind, Option.bind_eq_some_iff, Option.pure_def,
      Option.some.injEq, Prod.mk.injEq] at h
    obtain ⟨_, _, _, _, _, _, _, _, _, rfl⟩ := h
    simp only [List.length_cons]
    omega

theorem scanLow_length {cs rest : List Char} {n : Nat} (h : scanLow cs = some (n, rest)) :
    rest.length < cs.length := by
  unfold scanLow at h
  split at h
  · have := scanUnit_length (Option.eq_some_of_filter_eq_some h)
    simp only [List.length_cons]
    omega
  · simp at h

theorem scanEscape_length {cs rest : List Char} {c : Option Char}
    (h : scanEscape cs = some (c, rest)) : rest.length < cs.length := by
  unfold scanEscape at h
  split at h
  case h_1 =>
    simp only [Option.bind_eq_bind, Option.bind_eq_some_iff, Prod.exists] at h
    obtain ⟨n, mid, hunit, h⟩ := h
    have hmid := scanUnit_length hunit
    simp only [List.length_cons]
    split at h
    · split at h
      · rename_i hlow
        have := scanLow_length hlow
        obtain ⟨rfl, rfl⟩ := h
        omega
      · obtain ⟨rfl, rfl⟩ := h
        omega
    · split at h <;>
      · obtain ⟨rfl, rfl⟩ := h
        omega
  all_goals first
    | (simp only [Option.some.injEq, Prod.mk.injEq] at h
       obtain ⟨_, rfl⟩ := h
       simp)
    | simp at h

/-- A string literal after its opening quote. `seen` holds the characters read so
far, last one first; `whole` says that each of them is a character. -/
def scanString (seen : List Char) (whole : Bool) (cs : List Char) :
    Option (Token × List Char) :=
  match cs with
  | [] => none
  | '"' :: rest => some (.string (if whole then some (.ofList seen.reverse) else none), rest)
  | '\\' :: rest =>
    match _h : scanEscape rest with
    | none => none
    | some (some c, rest) => scanString (c :: seen) whole rest
    | some (none, rest) => scanString seen false rest
  | c :: rest => if c.toNat < 0x20 then none else scanString (c :: seen) whole rest
termination_by cs.length
decreasing_by
  · have := scanEscape_length _h
    simp only [List.length_cons]
    omega
  · have := scanEscape_length _h
    simp only [List.length_cons]
    omega
  · simp

/-! ## Numbers -/

/-- One or more digits. -/
def scanDigits (cs : List Char) : Option (List Char × List Char) :=
  let ds := cs.takeWhile Char.isDigit
  if ds.isEmpty then none else some (ds, cs.dropWhile Char.isDigit)

/-- Digits without a leading zero. -/
def scanWhole (cs : List Char) : Option (List Char × List Char) :=
  (scanDigits cs).filter fun (ds, _) => ds.head? ≠ some '0' || ds.length = 1

/-- A point and digits, or nothing. -/
def scanFraction : List Char → Option (List Char × List Char)
  | '.' :: cs => scanDigits cs
  | cs => some ([], cs)

/-- The sign and the digits of an exponent, or nothing. -/
def scanExponent : List Char → Option (Option (Bool × List Char) × List Char)
  | c :: cs =>
    if c = 'e' ∨ c = 'E' then
      match cs with
      | '-' :: cs => (scanDigits cs).map fun (ds, rest) => (some (true, ds), rest)
      | '+' :: cs => (scanDigits cs).map fun (ds, rest) => (some (false, ds), rest)
      | cs => (scanDigits cs).map fun (ds, rest) => (some (false, ds), rest)
    else some (none, c :: cs)
  | [] => some (none, [])

/-- A numeral after its sign. -/
def scanNumeral (negative : Bool) (cs : List Char) : Option (Token × List Char) := do
  let (whole, cs) ← scanWhole cs
  let (fraction, cs) ← scanFraction cs
  let (exponent, cs) ← scanExponent cs
  let numeral : Numeral := { negative, whole, fraction, exponent }
  return (.number numeral.value, cs)

/-! ## The whole text -/

/-- The token at the head of a text that starts with no blank. -/
def scan : List Char → Option (Token × List Char)
  | [] => none
  | '[' :: cs => some (.openArray, cs)
  | ']' :: cs => some (.closeArray, cs)
  | '\x7b' :: cs => some (.openObject, cs)
  | '\x7d' :: cs => some (.closeObject, cs)
  | ',' :: cs => some (.comma, cs)
  | ':' :: cs => some (.colon, cs)
  | '"' :: cs => scanString [] true cs
  | '-' :: cs => scanNumeral true cs
  | 'n' :: 'u' :: 'l' :: 'l' :: cs => some (.null, cs)
  | 't' :: 'r' :: 'u' :: 'e' :: cs => some (.bool true, cs)
  | 'f' :: 'a' :: 'l' :: 's' :: 'e' :: cs => some (.bool false, cs)
  | cs => scanNumeral false cs

theorem scanString_length {seen cs rest : List Char} {whole : Bool} {t : Token}
    (h : scanString seen whole cs = some (t, rest)) : rest.length < cs.length := by
  fun_induction scanString seen whole cs with
  | case1 => simp at h
  | case2 => simp_all
  | case3 => simp at h
  | case4 _ _ _ _ _ hesc ih =>
    have := scanEscape_length hesc
    have := ih h
    simp only [List.length_cons]
    omega
  | case5 _ _ _ _ hesc ih =>
    have := scanEscape_length hesc
    have := ih h
    simp only [List.length_cons]
    omega
  | case6 => simp at h
  | case7 _ _ _ _ _ _ _ ih =>
    have := ih h
    simp only [List.length_cons]
    omega

theorem scanDigits_length {cs ds rest : List Char} (h : scanDigits cs = some (ds, rest)) :
    rest.length < cs.length := by
  simp only [scanDigits, List.isEmpty_iff] at h
  split at h
  · simp at h
  · rename_i hne
    simp only [Option.some.injEq, Prod.mk.injEq] at h
    obtain ⟨_, rfl⟩ := h
    have hlen := congrArg List.length <|
      List.takeWhile_append_dropWhile (p := Char.isDigit) (l := cs)
    have := List.length_pos_iff.2 hne
    simp only [List.length_append] at hlen
    omega

theorem scanFraction_length {cs ds rest : List Char} (h : scanFraction cs = some (ds, rest)) :
    rest.length ≤ cs.length := by
  unfold scanFraction at h
  split at h
  · have := scanDigits_length h
    simp only [List.length_cons]
    omega
  · simp_all

theorem scanExponent_length {cs rest : List Char} {e : Option (Bool × List Char)}
    (h : scanExponent cs = some (e, rest)) : rest.length ≤ cs.length := by
  unfold scanExponent at h
  split at h
  · split at h
    · split at h <;>
      · simp only [Option.map_eq_some_iff, Prod.exists, Prod.mk.injEq] at h
        obtain ⟨ds, mid, hds, _, rfl⟩ := h
        have := scanDigits_length hds
        simp only [List.length_cons]
        omega
    · simp_all
  · simp_all

theorem scanNumeral_length {negative : Bool} {cs rest : List Char} {t : Token}
    (h : scanNumeral negative cs = some (t, rest)) : rest.length < cs.length := by
  simp only [scanNumeral, scanWhole, Option.bind_eq_bind, Option.bind_eq_some_iff, Prod.exists,
    Option.pure_def, Option.some.injEq, Prod.mk.injEq] at h
  obtain ⟨whole, mid, hwhole, fraction, mid', hfraction, exponent, _, hexponent, _, rfl⟩ := h
  have := scanDigits_length (Option.eq_some_of_filter_eq_some hwhole)
  have := scanFraction_length hfraction
  have := scanExponent_length hexponent
  omega

theorem scan_length {cs rest : List Char} {t : Token} (h : scan cs = some (t, rest)) :
    rest.length < cs.length := by
  unfold scan at h
  split at h
  case h_8 =>
    have := scanString_length h
    simp only [List.length_cons]
    omega
  case h_9 =>
    have := scanNumeral_length h
    simp only [List.length_cons]
    omega
  case h_13 => exact scanNumeral_length h
  all_goals first
    | (simp only [Option.some.injEq, Prod.mk.injEq] at h
       obtain ⟨_, rfl⟩ := h
       simp only [List.length_cons]
       omega)
    | simp at h

/-- The tokens of a text. -/
def ofText (cs : List Char) : List Token :=
  match cs with
  | [] => []
  | c :: rest =>
    if isBlank c then ofText rest
    else
      match _h : scan (c :: rest) with
      | none => [.stray]
      | some (t, rest) => t :: ofText rest
termination_by cs.length
decreasing_by
  · simp
  · exact scan_length _h

end Token

end OpLint.Json
