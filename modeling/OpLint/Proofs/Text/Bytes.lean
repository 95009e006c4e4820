import Mathlib.Data.String.Basic

/-!
# The order of texts as bytes

Texts are ordered by their characters. They might as well be ordered by the bytes in which they
are encoded: of two characters the smaller one has the smaller first byte, or the same first byte
and as many bytes after it, and those are the digits of what is left. So the encodings of two
different characters part before either ends, and whatever follows them does not matter.
-/

namespace OpLint.Text

/-- The bytes of a text. -/
def bytes (s : String) : List UInt8 :=
  s.toUTF8.data.toList

/-- The last bytes of a character: its last digits to base 64. -/
def trail (v : Nat) : Nat → List UInt8
  | 0 => []
  | n + 1 => .ofNat (v / 64 ^ n % 64 + 128) :: trail v n

/-- How many bytes come after the first one. -/
def trailing (v : Nat) : Nat :=
  if v ≤ 127 then 0 else if v ≤ 2047 then 1 else if v ≤ 65535 then 2 else 3

/-- The first byte of a character. -/
def lead (v : Nat) : Nat :=
  if v ≤ 127 then v
  else if v ≤ 2047 then v / 64 + 192
  else if v ≤ 65535 then v / 4096 + 224
  else v / 262144 + 240

theorem bytes_eq (s : String) : bytes s = s.toList.flatMap String.utf8EncodeChar := by
  conv => lhs; rw [← String.ofList_toList (s := s)]
  exact List.toList_data_toByteArray

/-! ## Characters -/

theorem toNat_val_lt (c : Char) : c.val.toNat < 1114112 := by
  rcases c.valid with h | ⟨-, h⟩
  · exact Nat.lt_trans h (by decide)
  · exact h

theorem utf8EncodeChar_eq (c : Char) :
    String.utf8EncodeChar c = .ofNat (lead c.val.toNat) ::
      trail c.val.toNat (trailing c.val.toNat) := by
  have hv := toNat_val_lt c
  rw [String.utf8EncodeChar, lead, trailing]
  generalize c.val.toNat = v at hv
  split_ifs with h₁ h₂ h₃
  · rfl
  · rw [Nat.mod_eq_of_lt (by omega : v / 64 < 32)]
    simp [trail]
  · rw [Nat.mod_eq_of_lt (by omega : v / 4096 < 16)]
    simp [trail]
  · rw [Nat.mod_eq_of_lt (by omega : v / 262144 < 8)]
    simp [trail]

theorem lead_lt {v : Nat} (h : v < 1114112) : lead v < 256 := by
  rw [lead]
  split_ifs <;> omega

/-- The first bytes are in the order of the characters. Where they are the same the characters
are equally long and differ in what is left. -/
theorem lead_lt_or_eq {v w : Nat} (h : v < w) :
    lead v < lead w ∨ lead v = lead w ∧ trailing v = trailing w ∧
      v % 64 ^ trailing w < w % 64 ^ trailing w := by
  rw [lead, lead, trailing, trailing]
  split_ifs <;> omega

theorem ofNat_lt_ofNat {a b : Nat} (hb : b < 256) (h : a < b) : UInt8.ofNat a < UInt8.ofNat b := by
  rw [UInt8.lt_iff_toNat_lt, UInt8.toNat_ofNat', UInt8.toNat_ofNat']
  omega

theorem trail_append_lt {v w n : Nat} (h : v % 64 ^ n < w % 64 ^ n) (as bs : List UInt8) :
    trail v n ++ as < trail w n ++ bs := by
  induction n with
  | zero =>
      rw [Nat.pow_zero, Nat.mod_one, Nat.mod_one] at h
      exact absurd h (Nat.lt_irrefl 0)
  | succ n ih =>
      rw [Nat.mod_pow_succ, Nat.mod_pow_succ] at h
      rw [trail, trail, List.cons_append, List.cons_append, List.cons_lt_cons_iff]
      rcases Nat.lt_trichotomy (v / 64 ^ n % 64) (w / 64 ^ n % 64) with hlt | heq | hgt
      · exact Or.inl (ofNat_lt_ofNat (by omega) (by omega))
      · rw [heq] at h ⊢
        exact Or.inr ⟨rfl, ih (by omega)⟩
      · have hv := Nat.mod_lt v (Nat.pow_pos (n := n) (by decide : 0 < 64))
        have hw := Nat.mod_lt w (Nat.pow_pos (n := n) (by decide : 0 < 64))
        have := Nat.mul_le_mul_left (64 ^ n) (Nat.succ_le_of_lt hgt)
        rw [Nat.mul_succ] at this
        omega

/-- The encodings of two characters part before either ends. -/
theorem utf8EncodeChar_append_lt {c d : Char} (h : c < d) (as bs : List UInt8) :
    String.utf8EncodeChar c ++ as < String.utf8EncodeChar d ++ bs := by
  rw [utf8EncodeChar_eq, utf8EncodeChar_eq, List.cons_append, List.cons_append,
    List.cons_lt_cons_iff]
  have hval : c.val.toNat < d.val.toNat := h
  rcases lead_lt_or_eq hval with hlt | ⟨hlead, htrailing, hrest⟩
  · exact Or.inl (ofNat_lt_ofNat (lead_lt (toNat_val_lt d)) hlt)
  · rw [hlead, htrailing]
    exact Or.inr ⟨rfl, trail_append_lt hrest as bs⟩

/-! ## Texts -/

theorem flatMap_utf8EncodeChar_lt {as bs : List Char} (h : as < bs) :
    as.flatMap String.utf8EncodeChar < bs.flatMap String.utf8EncodeChar := by
  induction as generalizing bs with
  | nil =>
      cases bs with
      | nil => exact absurd h (List.lt_irrefl [])
      | cons b bs =>
          rw [List.flatMap_nil, List.flatMap_cons, utf8EncodeChar_eq]
          exact List.nil_lt_cons _ _
  | cons a as ih =>
      cases bs with
      | nil => exact absurd h (List.not_lt_nil _)
      | cons b bs =>
          rw [List.flatMap_cons, List.flatMap_cons]
          rcases List.cons_lt_cons_iff.1 h with hlt | ⟨rfl, hlt⟩
          · exact utf8EncodeChar_append_lt hlt _ _
          · exact List.append_left_lt (ih hlt)

theorem bytes_lt_bytes {s t : String} (h : s < t) : bytes s < bytes t := by
  rw [bytes_eq, bytes_eq]
  exact flatMap_utf8EncodeChar_lt h

theorem bytes_le_bytes_iff {s t : String} : bytes s ≤ bytes t ↔ s ≤ t := by
  constructor
  · intro h
    rw [← String.not_lt]
    exact fun hlt => h (bytes_lt_bytes hlt)
  · intro h
    rcases lt_or_eq_of_le h with hlt | rfl
    · exact List.le_of_lt (bytes_lt_bytes hlt)
    · exact List.le_refl _

end OpLint.Text
