import Mathlib.Data.String.Basic
import OpLint.Text.Lines

/-!
# Positions count line breaks and characters

A table of lines is made from bytes, and a look-up in it goes back to characters. Said in
characters alone, a position is simple: the number of line breaks that end before it, and how
many characters come after the last of these. `positionAfter` says that.

The two meet at the places between characters. Such a place has as many bytes before it as the
characters before it have, and the table consists of the places at which line breaks end. For
any other offset the last place at or before it decides the line, and the offset itself has no
character number, so that it counts as the start of its line. That is why positions ascend
with the offsets between characters and may fall back at an offset within one.

No number here is greater than the size of the text in bytes. So numbers stand for words of
32 bits if the text is smaller than 2 ^ 32 bytes, which `position_le_iff` assumes.
-/

namespace OpLint.Text

open String (utf8Len utf8Len_cons utf8Len_toList)

variable {cs : List Char} {i j offset : Nat}

/-! ## Line breaks, in characters -/

/-- Whether a line break ends after the first `i` characters. A carriage return with a line
feed after it is a part of the break that ends with the line feed. -/
def breakEndsAt (cs : List Char) : Nat → Bool
  | 0 => false
  | i + 1 => cs[i]? = some '\n' || cs[i]? = some '\r' && cs[i + 1]? ≠ some '\n'

/-- The ends of the line breaks that end within the first `i` characters. -/
def breakEnds (cs : List Char) (i : Nat) : List Nat :=
  (List.range' 1 i).filter (breakEndsAt cs)

/-- The position after the first `i` characters. -/
def positionAfter (cs : List Char) (i : Nat) : Position :=
  ⟨(breakEnds cs i).length, i - (breakEnds cs i).getLast?.getD 0⟩

theorem breakEnds_eq_append (h : i ≤ j) :
    breakEnds cs j = breakEnds cs i ++ (List.range' (1 + i) (j - i)).filter (breakEndsAt cs) := by
  rw [breakEnds, breakEnds, ← List.filter_append, List.range'_append_1, Nat.add_sub_cancel' h]

theorem breakEnds_cons (c : Char) (cs : List Char) (i : Nat) :
    breakEnds (c :: cs) (i + 1) =
      (if breakEndsAt (c :: cs) 1 then [1] else []) ++ (breakEnds cs i).map (1 + ·) := by
  have hshift : ∀ j ∈ List.range' 1 i,
      (breakEndsAt (c :: cs) ∘ fun j => 1 + j) j = breakEndsAt cs j := by
    intro j hj
    obtain ⟨k, rfl⟩ : ∃ k, j = k + 1 := ⟨j - 1, by have := List.mem_range'_1.1 hj; omega⟩
    rw [Function.comp_apply, Nat.add_comm]
    rfl
  rw [breakEnds, List.range'_succ, List.filter_cons, ← List.map_add_range', List.filter_map,
    List.filter_congr hshift, breakEnds]
  split <;> rfl

theorem le_of_mem_breakEnds (h : j ∈ breakEnds cs i) : j ≤ i := by
  have := List.mem_range'_1.1 (List.mem_filter.1 h).1
  omega

theorem getLast?_breakEnds_le (cs : List Char) (i : Nat) :
    (breakEnds cs i).getLast?.getD 0 ≤ i := by
  cases hlast : (breakEnds cs i).getLast? with
  | none => exact Nat.zero_le i
  | some j => exact le_of_mem_breakEnds (List.mem_of_getLast? hlast)

/-! ## Places between characters -/

/-- The number of bytes of the first `i` characters. -/
def bytesBefore (cs : List Char) (i : Nat) : Nat :=
  utf8Len (cs.take i)

/-- The number of characters that lie wholly before a byte. -/
def wholeCharacters : List Char → Nat → Nat
  | [], _ => 0
  | c :: cs, offset =>
    if offset < c.utf8Size then 0 else wholeCharacters cs (offset - c.utf8Size) + 1

theorem bytesBefore_zero (cs : List Char) : bytesBefore cs 0 = 0 := by
  rw [bytesBefore, List.take_zero]
  rfl

theorem utf8ByteSize_eq_bytesBefore (text : String) :
    text.utf8ByteSize = bytesBefore text.toList text.toList.length := by
  rw [bytesBefore, List.take_length, utf8Len_toList]

theorem bytesBefore_cons (c : Char) (cs : List Char) (i : Nat) :
    bytesBefore (c :: cs) (i + 1) = c.utf8Size + bytesBefore cs i := by
  rw [bytesBefore, List.take_succ_cons, utf8Len_cons, Nat.add_comm, bytesBefore]

theorem bytesBefore_lt (hij : i < j) (hj : j ≤ cs.length) :
    bytesBefore cs i < bytesBefore cs j := by
  induction cs generalizing i j with
  | nil => exact absurd hij (by rw [List.length_nil] at hj; omega)
  | cons c cs ih =>
      obtain ⟨j, rfl⟩ : ∃ k, j = k + 1 := ⟨j - 1, by omega⟩
      rw [List.length_cons] at hj
      rw [bytesBefore_cons]
      cases i with
      | zero =>
          have := c.utf8Size_pos
          rw [bytesBefore_zero]
          omega
      | succ i =>
          have := ih (i := i) (j := j) (by omega) (by omega)
          rw [bytesBefore_cons]
          omega

theorem bytesBefore_le_iff (hi : i ≤ cs.length) (hj : j ≤ cs.length) :
    bytesBefore cs i ≤ bytesBefore cs j ↔ i ≤ j := by
  constructor
  · intro h
    by_contra hlt
    have := bytesBefore_lt (Nat.not_le.1 hlt) hi
    omega
  · intro h
    rcases Nat.lt_or_eq_of_le h with h | rfl
    · exact Nat.le_of_lt (bytesBefore_lt h hj)
    · exact Nat.le_refl _

theorem wholeCharacters_le_length (cs : List Char) (offset : Nat) :
    wholeCharacters cs offset ≤ cs.length := by
  induction cs generalizing offset with
  | nil => exact Nat.le_refl 0
  | cons c cs ih =>
      rw [wholeCharacters]
      split
      · exact Nat.zero_le _
      · exact Nat.succ_le_succ (ih _)

/-- The characters wholly before a byte are those whose bytes are. -/
theorem bytesBefore_le_iff_le_wholeCharacters (hi : i ≤ cs.length) :
    bytesBefore cs i ≤ offset ↔ i ≤ wholeCharacters cs offset := by
  induction cs generalizing i offset with
  | nil =>
      obtain rfl : i = 0 := Nat.le_zero.1 hi
      rw [bytesBefore_zero]
      exact iff_of_true (Nat.zero_le _) (Nat.zero_le _)
  | cons c cs ih =>
      cases i with
      | zero =>
          rw [bytesBefore_zero]
          exact iff_of_true (Nat.zero_le _) (Nat.zero_le _)
      | succ i =>
          rw [bytesBefore_cons, wholeCharacters]
          split
          · omega
          · next hsize =>
              have := @ih i (offset - c.utf8Size) (Nat.le_of_succ_le_succ hi)
              omega

theorem wholeCharacters_eq (hi : i ≤ cs.length)
    (h : ∀ j ≤ cs.length, bytesBefore cs j ≤ offset ↔ j ≤ i) : wholeCharacters cs offset = i := by
  have hle := wholeCharacters_le_length cs offset
  refine Nat.le_antisymm ((h _ hle).1 ?_) ((bytesBefore_le_iff_le_wholeCharacters hi).1 ?_)
  · exact (bytesBefore_le_iff_le_wholeCharacters hle).2 (Nat.le_refl _)
  · exact (h i hi).2 (Nat.le_refl i)

theorem wholeCharacters_bytesBefore (hi : i ≤ cs.length) :
    wholeCharacters cs (bytesBefore cs i) = i :=
  wholeCharacters_eq hi fun _ hj => bytesBefore_le_iff hj hi

theorem wholeCharacters_mono {a b : Nat} (h : a ≤ b) (cs : List Char) :
    wholeCharacters cs a ≤ wholeCharacters cs b := by
  have hle := wholeCharacters_le_length cs a
  rw [← bytesBefore_le_iff_le_wholeCharacters hle]
  exact ((bytesBefore_le_iff_le_wholeCharacters hle).2 (Nat.le_refl _)).trans h

/-- An offset past the end has the same characters before it as the end. -/
theorem wholeCharacters_min (cs : List Char) (offset : Nat) :
    wholeCharacters cs (min offset (bytesBefore cs cs.length)) = wholeCharacters cs offset := by
  refine wholeCharacters_eq (wholeCharacters_le_length cs offset) fun j hj => ?_
  rw [← bytesBefore_le_iff_le_wholeCharacters hj, Nat.le_min]
  exact and_iff_left ((bytesBefore_le_iff hj (Nat.le_refl _)).2 hj)

theorem charactersBefore?_eq (cs : List Char) (offset : Nat) :
    charactersBefore? cs offset =
      if bytesBefore cs (wholeCharacters cs offset) = offset then some (wholeCharacters cs offset)
      else none := by
  induction cs generalizing offset with
  | nil =>
      rw [wholeCharacters, bytesBefore_zero]
      cases offset with
      | zero => rfl
      | succ offset =>
          rw [charactersBefore?]
          exact (if_neg (by omega)).symm
  | cons c cs ih =>
      have := c.utf8Size_pos
      rw [wholeCharacters]
      cases offset with
      | zero => rw [charactersBefore?, if_pos c.utf8Size_pos, bytesBefore_zero, if_pos rfl]
      | succ offset =>
          rw [charactersBefore?.eq_3 _ _ _ (Nat.succ_ne_zero offset)]
          split
          · rw [bytesBefore_zero, if_neg (by omega)]
          · rw [ih, bytesBefore_cons]
            by_cases h : bytesBefore cs (wholeCharacters cs (offset + 1 - c.utf8Size)) =
                offset + 1 - c.utf8Size
            · rw [if_pos h, if_pos (by omega)]
              rfl
            · rw [if_neg h, if_neg (by omega)]
              rfl

/-! ## The table -/

theorem breakEndsAt_one (c : Char) (cs : List Char) :
    breakEndsAt (c :: cs) 1 = true ↔ c = '\n' ∨ c = '\r' ∧ cs.head? ≠ some '\n' := by
  simp [breakEndsAt, List.head?_eq_getElem?]

/-- A line starts after a character that ends a line break. The table has a case of its own for
the two characters of one break; it comes to the same. -/
theorem lineStartsFrom_cons (offset : Nat) (c : Char) (cs : List Char) :
    lineStartsFrom offset (c :: cs) =
      (if breakEndsAt (c :: cs) 1 then [offset + c.utf8Size] else []) ++
        lineStartsFrom (offset + c.utf8Size) cs := by
  rw [lineStartsFrom.eq_def]
  split
  · next heq => cases heq
  · next cs' heq =>
      cases heq
      rfl
  · next c' cs' hpair heq =>
      cases heq
      have hbreak : breakEndsAt (c :: cs) 1 = true ↔ c = '\n' ∨ c = '\r' := by
        rw [breakEndsAt_one]
        refine or_congr_right (and_iff_left_of_imp fun hc hhead => ?_)
        obtain ⟨cs', rfl⟩ := List.head?_eq_some_iff.1 hhead
        exact hpair cs' hc rfl
      by_cases h : c = '\n' ∨ c = '\r'
      · rw [if_pos h, if_pos (hbreak.2 h)]
        rfl
      · rw [if_neg h, if_neg (mt hbreak.1 h)]
        rfl

/-- The lines after the first one start where the line breaks end. -/
theorem lineStartsFrom_eq (offset : Nat) (cs : List Char) :
    lineStartsFrom offset cs =
      (breakEnds cs cs.length).map (offset + bytesBefore cs ·) := by
  induction cs generalizing offset with
  | nil => rfl
  | cons c cs ih =>
      have hone : offset + bytesBefore (c :: cs) 1 = offset + c.utf8Size := by
        rw [bytesBefore_cons c cs 0, bytesBefore_zero, Nat.add_zero]
      rw [lineStartsFrom_cons, ih, List.length_cons, breakEnds_cons, List.map_append,
        List.map_map]
      congr 1
      · split
        · rw [List.map_singleton, hone]
        · rfl
      · refine List.map_congr_left fun i _ => ?_
        rw [Function.comp_apply, Nat.add_comm 1 i, bytesBefore_cons, Nat.add_assoc]

namespace LineTable

theorem starts_ofText (text : String) :
    (ofText text).starts =
      (0 :: breakEnds text.toList text.toList.length).map (bytesBefore text.toList) := by
  rw [ofText, lineStartsFrom_eq, List.map_cons, bytesBefore_zero]
  simp only [Nat.zero_add]

/-- The line starts at or before an offset, and those after it. -/
theorem starts_eq_append (text : String) (offset : Nat) :
    let cs := text.toList
    let whole := wholeCharacters cs offset
    ∃ later : List Nat, (∀ start ∈ later, offset < start) ∧
      (ofText text).starts = (0 :: breakEnds cs whole).map (bytesBefore cs) ++ later := by
  intro cs whole
  have hwhole : whole ≤ cs.length := wholeCharacters_le_length cs offset
  refine ⟨((List.range' (1 + whole) (cs.length - whole)).filter (breakEndsAt cs)).map
    (bytesBefore cs), fun start hstart => ?_, ?_⟩
  · obtain ⟨i, hi, rfl⟩ := List.mem_map.1 hstart
    have hrange := List.mem_range'_1.1 (List.mem_filter.1 hi).1
    rw [← Nat.not_le, bytesBefore_le_iff_le_wholeCharacters (by omega)]
    omega
  · rw [starts_ofText, breakEnds_eq_append hwhole, ← List.cons_append, List.map_append]

theorem lineAt_ofText (text : String) (offset : Nat) :
    (ofText text).lineAt offset =
      (breakEnds text.toList (wholeCharacters text.toList offset)).length := by
  obtain ⟨later, hlater, hstarts⟩ := starts_eq_append text offset
  have hbefore : ∀ start ∈ (0 :: breakEnds text.toList (wholeCharacters text.toList offset)).map
      (bytesBefore text.toList), decide (start ≤ offset) = true := by
    intro start hstart
    obtain ⟨i, hi, rfl⟩ := List.mem_map.1 hstart
    have hwhole := wholeCharacters_le_length text.toList offset
    have hle : i ≤ wholeCharacters text.toList offset := by
      rcases List.mem_cons.1 hi with rfl | hi
      · exact Nat.zero_le _
      · exact le_of_mem_breakEnds hi
    exact decide_eq_true ((bytesBefore_le_iff_le_wholeCharacters (hle.trans hwhole)).2 hle)
  have hafter : ∀ start ∈ later, ¬ decide (start ≤ offset) = true := by
    intro start hstart
    have := hlater start hstart
    simpa using this
  rw [lineAt, hstarts, List.countP_append, List.countP_eq_length.2 hbefore,
    List.countP_eq_zero.2 hafter, List.length_map, List.length_cons]
  rfl

theorem start_ofText (text : String) (offset : Nat) :
    (ofText text).starts[(ofText text).lineAt offset]?.getD 0 =
      bytesBefore text.toList
        ((breakEnds text.toList (wholeCharacters text.toList offset)).getLast?.getD 0) := by
  obtain ⟨later, -, hstarts⟩ := starts_eq_append text offset
  rw [lineAt_ofText, hstarts, List.getElem?_append_left (by simp), List.getElem?_map]
  have hlast := List.getLast?_cons
    (l := breakEnds text.toList (wholeCharacters text.toList offset)) (a := 0)
  rw [List.getLast?_eq_getElem?, List.length_cons, Nat.add_sub_cancel] at hlast
  rw [hlast]
  rfl

/-- The position of an offset: that of the place at it, if there is one, and else the start of
the line of the last place before it. -/
theorem position_ofText (text : String) (offset : Nat) :
    let cs := text.toList
    let whole := wholeCharacters cs offset
    (ofText text).position offset text =
      if bytesBefore cs whole = min offset text.utf8ByteSize then positionAfter cs whole
      else ⟨(positionAfter cs whole).line, 0⟩ := by
  intro cs whole
  have hwhole : whole ≤ cs.length := wholeCharacters_le_length cs offset
  have hsize : text.utf8ByteSize = bytesBefore cs cs.length := utf8ByteSize_eq_bytesBefore text
  have hline : (breakEnds cs whole).getLast?.getD 0 ≤ whole := getLast?_breakEnds_le cs whole
  have hlast : bytesBefore cs whole ≤ min offset (bytesBefore cs cs.length) :=
    Nat.le_min.2 ⟨(bytesBefore_le_iff_le_wholeCharacters hwhole).2 (Nat.le_refl _),
      (bytesBefore_le_iff hwhole (Nat.le_refl _)).2 hwhole⟩
  have hstart : bytesBefore cs ((breakEnds cs whole).getLast?.getD 0) ≤
      min offset (bytesBefore cs cs.length) :=
    Nat.le_trans ((bytesBefore_le_iff (hline.trans hwhole) hwhole).2 hline) hlast
  rw [position, start_ofText, lineAt_ofText, hsize, Nat.min_eq_left hstart, charactersBetween,
    charactersBefore?_eq, charactersBefore?_eq, wholeCharacters_bytesBefore (hline.trans hwhole),
    if_pos rfl, wholeCharacters_min]
  by_cases h : bytesBefore cs whole = min offset (bytesBefore cs cs.length)
  · rw [if_pos h, if_pos h]
    rfl
  · rw [if_neg h, if_neg h]
    rfl

end LineTable

/-! ## The order of positions -/

namespace Position

/-- Positions are ordered by line, then by character. -/
instance : LT Position :=
  ⟨fun p q => p.line < q.line ∨ p.line = q.line ∧ p.character < q.character⟩

instance : LE Position :=
  ⟨fun p q => p.line < q.line ∨ p.line = q.line ∧ p.character ≤ q.character⟩

theorem ne_of_lt {p q : Position} (h : p < q) : p ≠ q := by
  rintro rfl
  rcases h with h | ⟨-, h⟩ <;> exact Nat.lt_irrefl _ h

theorem le_trans {p q r : Position} (hpq : p ≤ q) (hqr : q ≤ r) : p ≤ r := by
  rcases hpq with hpq | ⟨hpq, hpq'⟩ <;> rcases hqr with hqr | ⟨hqr, hqr'⟩
  · exact Or.inl (Nat.lt_trans hpq hqr)
  · exact Or.inl (hqr ▸ hpq)
  · exact Or.inl (hpq ▸ hqr)
  · exact Or.inr ⟨hpq.trans hqr, Nat.le_trans hpq' hqr'⟩

end Position

theorem positionAfter_lt (h : i < j) : positionAfter cs i < positionAfter cs j := by
  have happend : breakEnds cs j = _ := breakEnds_eq_append (Nat.le_of_lt h)
  have hlast := getLast?_breakEnds_le cs i
  cases hnew : (List.range' (1 + i) (j - i)).filter (breakEndsAt cs) with
  | nil =>
      rw [hnew, List.append_nil] at happend
      refine Or.inr ⟨congrArg List.length happend.symm, ?_⟩
      show i - _ < j - _
      rw [happend]
      omega
  | cons k new =>
      rw [hnew] at happend
      refine Or.inl ?_
      show (breakEnds cs i).length < (breakEnds cs j).length
      rw [happend, List.length_append, List.length_cons]
      omega

theorem positionAfter_le (h : i ≤ j) : positionAfter cs i ≤ positionAfter cs j := by
  rcases Nat.lt_or_eq_of_le h with h | rfl
  · have hlt : positionAfter cs i < positionAfter cs j := positionAfter_lt h
    rcases hlt with hline | ⟨hline, hcharacter⟩
    · exact Or.inl hline
    · exact Or.inr ⟨hline, Nat.le_of_lt hcharacter⟩
  · exact Or.inr ⟨rfl, Nat.le_refl _⟩

theorem line_positionAfter_le (h : i ≤ j) :
    (positionAfter cs i).line ≤ (positionAfter cs j).line := by
  show (breakEnds cs i).length ≤ (breakEnds cs j).length
  rw [breakEnds_eq_append h, List.length_append]
  exact Nat.le_add_right _ _

/-! ## Offsets between characters -/

theorem bytesBefore_length_left (before after : String) :
    bytesBefore (before ++ after).toList before.length = before.utf8ByteSize := by
  rw [bytesBefore, String.toList_append, ← String.length_toList, List.take_left, utf8Len_toList]

theorem length_left_le (before after : String) :
    before.length ≤ (before ++ after).toList.length := by
  rw [String.length_toList, String.length_append]
  exact Nat.le_add_right _ _

theorem wholeCharacters_left {before after : String} {offset : Nat}
    (h : min offset (before ++ after).utf8ByteSize = before.utf8ByteSize) :
    wholeCharacters (before ++ after).toList offset = before.length := by
  rw [← wholeCharacters_min, ← utf8ByteSize_eq_bytesBefore, h,
    ← bytesBefore_length_left before after]
  exact wholeCharacters_bytesBefore (length_left_le before after)

theorem min_left (before after : String) :
    min before.utf8ByteSize (before ++ after).utf8ByteSize = before.utf8ByteSize := by
  rw [String.utf8ByteSize_append]
  exact Nat.min_eq_left (Nat.le_add_right _ _)

theorem bytesBefore_wholeCharacters_of_valid {text : String}
    (h : (String.Pos.Raw.mk offset).IsValid text) :
    bytesBefore text.toList (wholeCharacters text.toList offset) = offset := by
  obtain ⟨before, after, rfl, hoffset⟩ := String.Pos.Raw.isValid_iff_exists_append.1 h
  cases hoffset
  rw [wholeCharacters_left (min_left before after), bytesBefore_length_left]

/-- The characters wholly before an offset reach up to it, or to the end when it is past that,
if it lies within no character. -/
theorem bytesBefore_wholeCharacters_iff (text : String) (offset : Nat) :
    bytesBefore text.toList (wholeCharacters text.toList offset) =
        min offset text.utf8ByteSize ↔
      (String.Pos.Raw.mk offset).IsValid text ∨ text.utf8ByteSize ≤ offset := by
  constructor
  · intro h
    rcases Nat.le_total text.utf8ByteSize offset with hpast | hwithin
    · exact Or.inr hpast
    · rw [Nat.min_eq_left hwithin] at h
      refine Or.inl (String.Pos.Raw.isValid_iff_exists_take_toList.2
        ⟨wholeCharacters text.toList offset, ?_⟩)
      rw [← utf8Len_toList, String.toList_ofList]
      exact h.symm
  · rintro (hvalid | hpast)
    · have hwithin : offset ≤ text.utf8ByteSize := String.Pos.Raw.le_iff.1 hvalid.le_rawEndPos
      rw [bytesBefore_wholeCharacters_of_valid hvalid, Nat.min_eq_left hwithin]
    · have hwhole := wholeCharacters_le_length text.toList offset
      have hend := (bytesBefore_le_iff_le_wholeCharacters (Nat.le_refl text.toList.length)).1
        (utf8ByteSize_eq_bytesBefore text ▸ hpast)
      rw [Nat.min_eq_right hpast, Nat.le_antisymm hwhole hend, utf8ByteSize_eq_bytesBefore]

theorem wholeCharacters_lt_of_valid {text : String} {a b : Nat}
    (ha : (String.Pos.Raw.mk a).IsValid text) (hb : (String.Pos.Raw.mk b).IsValid text)
    (hab : a < b) : wholeCharacters text.toList a < wholeCharacters text.toList b := by
  by_contra hle
  have := (bytesBefore_le_iff (wholeCharacters_le_length text.toList b)
    (wholeCharacters_le_length text.toList a)).2 (Nat.not_lt.1 hle)
  rw [bytesBefore_wholeCharacters_of_valid ha, bytesBefore_wholeCharacters_of_valid hb] at this
  omega

namespace LineTable

theorem position_eq_positionAfter {text : String} {offset : Nat}
    (h : (String.Pos.Raw.mk offset).IsValid text ∨ text.utf8ByteSize ≤ offset) :
    (ofText text).position offset text =
      positionAfter text.toList (wholeCharacters text.toList offset) := by
  rw [position_ofText, if_pos ((bytesBefore_wholeCharacters_iff text offset).2 h)]

theorem position_left {before after : String} {offset : Nat}
    (h : min offset (before ++ after).utf8ByteSize = before.utf8ByteSize) :
    (ofText (before ++ after)).position offset (before ++ after) =
      positionAfter (before ++ after).toList before.length := by
  rw [position_ofText, wholeCharacters_left h, bytesBefore_length_left, if_pos h.symm]

/-- The position of an offset between two characters, or past the end, counts the line breaks
that end before it, and the characters since the last of these. Of the offsets between
characters a greater one has a greater position, so no two share one. -/
theorem position_between_characters (text : String) :
    (∀ before after : String, ∀ offset : Nat, text = before ++ after →
      min offset text.utf8ByteSize = before.utf8ByteSize →
      let ends := breakEnds text.toList before.length
      (ofText text).position offset text =
        ⟨ends.length, before.length - ends.getLast?.getD 0⟩) ∧
    ∀ a b : Nat, (String.Pos.Raw.mk a).IsValid text → (String.Pos.Raw.mk b).IsValid text →
      (a < b → (ofText text).position a text < (ofText text).position b text) ∧
      (a ≠ b → (ofText text).position a text ≠ (ofText text).position b text) := by
  have hlt (a b : Nat) (ha : (String.Pos.Raw.mk a).IsValid text)
      (hb : (String.Pos.Raw.mk b).IsValid text) (hab : a < b) :
      (ofText text).position a text < (ofText text).position b text := by
    rw [position_eq_positionAfter (Or.inl ha), position_eq_positionAfter (Or.inl hb)]
    exact positionAfter_lt (wholeCharacters_lt_of_valid ha hb hab)
  refine ⟨fun before after offset htext h => ?_, fun a b ha hb => ⟨hlt a b ha hb, fun hne => ?_⟩⟩
  · subst htext
    exact position_left h
  · rcases Nat.lt_or_gt_of_ne hne with hab | hba
    · exact Position.ne_of_lt (hlt a b ha hb hab)
    · exact (Position.ne_of_lt (hlt b a hb ha hba)).symm

/-- Breaks of all three kinds and a character of two bytes. -/
theorem position_between_characters_mixed :
    (ofText "a\r\né\rb\n").position 7 "a\r\né\rb\n" = ⟨2, 1⟩ ∧
      (ofText "a\r\né\rb\n").position 6 "a\r\né\rb\n" <
        (ofText "a\r\né\rb\n").position 7 "a\r\né\rb\n" ∧
      (ofText "a\r\né\rb\n").position 7 "a\r\né\rb\n" ≠
        (ofText "a\r\né\rb\n").position 8 "a\r\né\rb\n" ∧
      (ofText "a\r\né\rb\n").position 100 "a\r\né\rb\n" = ⟨3, 0⟩ := by
  have hvalid : ∀ before after : String, "a\r\né\rb\n" = before ++ after →
      (String.Pos.Raw.mk before.utf8ByteSize).IsValid "a\r\né\rb\n" := fun before after h =>
    String.Pos.Raw.isValid_iff_exists_append.2 ⟨before, after, h, rfl⟩
  obtain ⟨hposition, hascend⟩ := position_between_characters "a\r\né\rb\n"
  refine ⟨(hposition "a\r\né\rb" "\n" 7 (by decide) (by decide)).trans (by decide),
    (hascend 6 7 (hvalid "a\r\né\r" "b\n" (by decide)) (hvalid "a\r\né\rb" "\n" (by decide))).1
      (by decide),
    (hascend 7 8 (hvalid "a\r\né\rb" "\n" (by decide)) (hvalid "a\r\né\rb\n" "" (by decide))).2
      (by decide),
    (hposition "a\r\né\rb\n" "" 100 (by decide) (by decide)).trans (by decide)⟩

/-! ## All offsets -/

theorem line_position (text : String) (offset : Nat) :
    ((ofText text).position offset text).line =
      (positionAfter text.toList (wholeCharacters text.toList offset)).line := by
  rw [position_ofText]
  split <;> rfl

theorem position_of_not_valid {text : String} {offset : Nat}
    (h : ¬ ((String.Pos.Raw.mk offset).IsValid text ∨ text.utf8ByteSize ≤ offset)) :
    (ofText text).position offset text =
      ⟨(positionAfter text.toList (wholeCharacters text.toList offset)).line, 0⟩ := by
  rw [position_ofText, if_neg (mt (bytesBefore_wholeCharacters_iff text offset).1 h)]

/-- All bytes of a character have the same characters wholly before them. -/
theorem wholeCharacters_of_within {before after : String} {c : Char} {offset : Nat}
    (hfrom : before.utf8ByteSize ≤ offset) (hto : offset < before.utf8ByteSize + c.utf8Size) :
    wholeCharacters (before ++ String.singleton c ++ after).toList offset = before.length := by
  have hnext : bytesBefore (before ++ String.singleton c ++ after).toList (before.length + 1) =
      before.utf8ByteSize + c.utf8Size := by
    have := bytesBefore_length_left (before ++ String.singleton c) after
    rwa [String.length_append, String.length_singleton, String.utf8ByteSize_append,
      String.utf8ByteSize_singleton] at this
  have hnextle : before.length + 1 ≤
      (before ++ String.singleton c ++ after).toList.length := by
    have := length_left_le (before ++ String.singleton c) after
    rwa [String.length_append, String.length_singleton] at this
  have hstart : bytesBefore (before ++ String.singleton c ++ after).toList before.length =
      before.utf8ByteSize := by
    rw [String.append_assoc, bytesBefore_length_left]
  refine wholeCharacters_eq (Nat.le_of_succ_le hnextle) fun j hj => ⟨fun h => ?_, fun h => ?_⟩
  · -- from the next character on there are more bytes before
    by_contra hlt
    have := (bytesBefore_le_iff hnextle hj).2 (Nat.not_le.1 hlt)
    omega
  · have := (bytesBefore_le_iff hj (Nat.le_of_succ_le hnextle)).2 h
    omega

theorem not_valid_of_within {before after : String} {c : Char} {offset : Nat}
    (hfrom : before.utf8ByteSize < offset) (hto : offset < before.utf8ByteSize + c.utf8Size) :
    ¬ ((String.Pos.Raw.mk offset).IsValid (before ++ String.singleton c ++ after) ∨
      (before ++ String.singleton c ++ after).utf8ByteSize ≤ offset) := by
  rw [← bytesBefore_wholeCharacters_iff, wholeCharacters_of_within (Nat.le_of_lt hfrom) hto,
    String.append_assoc, bytesBefore_length_left]
  simp only [String.utf8ByteSize_append, String.utf8ByteSize_singleton]
  omega

/-- Whatever the offset, its position is at most that of the last place at or before it. -/
theorem position_le_positionAfter (text : String) (offset : Nat) :
    (ofText text).position offset text ≤
      positionAfter text.toList (wholeCharacters text.toList offset) := by
  rw [position_ofText]
  split
  · exact Or.inr ⟨rfl, Nat.le_refl _⟩
  · exact Or.inr ⟨rfl, Nat.zero_le _⟩

/-! ### What fits into a word -/

theorem le_bytesBefore (hi : i ≤ cs.length) : i ≤ bytesBefore cs i := by
  induction i with
  | zero => exact Nat.zero_le _
  | succ i ih =>
      have hle := ih (Nat.le_of_succ_le hi)
      have hlt := bytesBefore_lt (Nat.lt_add_one i) hi
      omega

theorem start_le_size {text : String} {start : Nat} (h : start ∈ (ofText text).starts) :
    start ≤ text.utf8ByteSize := by
  rw [starts_ofText] at h
  obtain ⟨i, hi, rfl⟩ := List.mem_map.1 h
  have hi : i ≤ text.toList.length := by
    rcases List.mem_cons.1 hi with rfl | hi
    · exact Nat.zero_le _
    · exact le_of_mem_breakEnds hi
  rw [utf8ByteSize_eq_bytesBefore]
  exact (bytesBefore_le_iff hi (Nat.le_refl _)).2 hi

theorem position_le_size (text : String) (offset : Nat) :
    ((ofText text).position offset text).line ≤ text.utf8ByteSize ∧
      ((ofText text).position offset text).character ≤ text.utf8ByteSize := by
  have hwhole : wholeCharacters text.toList offset ≤ text.utf8ByteSize := by
    have hlength := wholeCharacters_le_length text.toList offset
    rw [utf8ByteSize_eq_bytesBefore]
    exact hlength.trans (le_bytesBefore (Nat.le_refl _))
  have hline : (positionAfter text.toList (wholeCharacters text.toList offset)).line ≤
      wholeCharacters text.toList offset := by
    refine (List.length_filter_le _ _).trans ?_
    rw [List.length_range']
  have hcharacter : (positionAfter text.toList (wholeCharacters text.toList offset)).character ≤
      wholeCharacters text.toList offset := Nat.sub_le _ _
  rw [position_ofText]
  split
  · exact ⟨hline.trans hwhole, hcharacter.trans hwhole⟩
  · exact ⟨hline.trans hwhole, Nat.zero_le _⟩

/-- The table of a text with fewer than 2 ^ 32 bytes, and the positions in it, are words of
32 bits. -/
theorem lt_word {text : String} (hsize : text.utf8ByteSize < 2 ^ 32) (a b : Nat) :
    let p := (ofText text).position a text
    let q := (ofText text).position b text
    ∀ n ∈ p.line :: p.character :: q.line :: q.character :: (ofText text).starts, n < 2 ^ 32 := by
  intro p q
  obtain ⟨hpline, hpcharacter⟩ := position_le_size text a
  obtain ⟨hqline, hqcharacter⟩ := position_le_size text b
  simp only [List.forall_mem_cons]
  exact ⟨hpline.trans_lt hsize, hpcharacter.trans_lt hsize, hqline.trans_lt hsize,
    hqcharacter.trans_lt hsize, fun start hstart => (start_le_size hstart).trans_lt hsize⟩

/-! ### Two offsets -/

/-- An offset within a character counts as the start of the line the character is on, so a
smaller offset on that line may have a greater position. Nowhere else do positions run
backwards, and lines never do. All numbers are words of 32 bits, as the offsets are, if the
text has fewer than 2 ^ 32 bytes. -/
theorem position_le_iff (text : String) (hsize : text.utf8ByteSize < 2 ^ 32) (a b : UInt32)
    (hab : a ≤ b) :
    let p := (ofText text).position a.toNat text
    let q := (ofText text).position b.toNat text
    (∀ n ∈ p.line :: p.character :: q.line :: q.character :: (ofText text).starts, n < 2 ^ 32) ∧
    p.line ≤ q.line ∧
    (p ≤ q ↔ (String.Pos.Raw.mk b.toNat).IsValid text ∨ text.utf8ByteSize ≤ b.toNat ∨
      p.line < q.line ∨ p.character = 0) ∧
    ∀ before : String, ∀ c : Char, ∀ after : String,
      text = before ++ String.singleton c ++ after →
      before.utf8ByteSize < b.toNat → b.toNat < before.utf8ByteSize + c.utf8Size →
      q = ⟨((ofText text).position before.utf8ByteSize text).line, 0⟩ := by
  intro p q
  have hwhole := wholeCharacters_mono (UInt32.le_iff_toNat_le.1 hab) text.toList
  have hline : p.line ≤ q.line := by
    show ((ofText text).position a.toNat text).line ≤ ((ofText text).position b.toNat text).line
    rw [line_position, line_position]
    exact line_positionAfter_le hwhole
  refine ⟨lt_word hsize a.toNat b.toNat, hline, ?_, fun before c after htext hfrom hto => ?_⟩
  · rw [← or_assoc]
    by_cases hplace : (String.Pos.Raw.mk b.toNat).IsValid text ∨ text.utf8ByteSize ≤ b.toNat
    · have hq : q = positionAfter text.toList (wholeCharacters text.toList b.toNat) :=
        position_eq_positionAfter hplace
      refine iff_of_true ?_ (Or.inl hplace)
      rw [hq]
      exact Position.le_trans (position_le_positionAfter text a.toNat) (positionAfter_le hwhole)
    · have hq : q.character = 0 :=
        congrArg Position.character (position_of_not_valid hplace)
      rw [or_iff_right hplace]
      show p.line < q.line ∨ p.line = q.line ∧ p.character ≤ q.character ↔ _
      omega
  · show (ofText text).position b.toNat text = _
    subst htext
    have hstart : wholeCharacters (before ++ String.singleton c ++ after).toList
        before.utf8ByteSize = before.length :=
      wholeCharacters_of_within (Nat.le_refl _) (Nat.lt_add_of_pos_right c.utf8Size_pos)
    rw [position_of_not_valid (not_valid_of_within hfrom hto), line_position, hstart,
      wholeCharacters_of_within (Nat.le_of_lt hfrom) hto]

/-- Offset 3 cuts the second of two characters after a break and falls back behind offset 2,
but not behind offset 0, which is on the line before. -/
theorem position_le_iff_cut :
    "\naé".utf8ByteSize < 2 ^ 32 ∧
      ¬ (ofText "\naé").position 2 "\naé" ≤ (ofText "\naé").position 3 "\naé" ∧
      (ofText "\naé").position 0 "\naé" ≤ (ofText "\naé").position 3 "\naé" ∧
      (ofText "\naé").position 3 "\naé" = ⟨1, 0⟩ := by
  have hsize : "\naé".utf8ByteSize < 2 ^ 32 := by decide
  obtain ⟨-, -, hback, hcut⟩ := position_le_iff "\naé" hsize 2 3 (by decide)
  obtain ⟨-, -, hline, -⟩ := position_le_iff "\naé" hsize 0 3 (by decide)
  refine ⟨hsize, mt hback.1 ?_, hline.2 (Or.inr (Or.inr (Or.inl (by decide)))),
    (hcut "\na" 'é' "" (by decide) (by decide) (by decide)).trans (by decide)⟩
  decide

theorem position_runs_back :
    ¬ ∀ (text : String) (a b : Nat), text.utf8ByteSize < 2 ^ 32 → b < 2 ^ 32 → a ≤ b →
      (ofText text).position a text ≤ (ofText text).position b text := by
  intro h
  have := h "aé" 1 2 (by decide) (by decide) (by decide)
  revert this
  rw [show (ofText "aé").position 1 "aé" = ⟨0, 1⟩ by decide,
    show (ofText "aé").position 2 "aé" = ⟨0, 0⟩ by decide]
  rintro (h | ⟨-, h⟩) <;> exact Nat.not_lt_zero _ h

end LineTable

end OpLint.Text
