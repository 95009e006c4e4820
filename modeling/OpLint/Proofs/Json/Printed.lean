import OpLint.Json.Draft
import OpLint.Proofs.Json.Lexemes

/-!
# What a written text reads as

The indented text of a value is read back in two stages, as any text is. Its tokens are
those of the value, with the blanks gone; and the draft of these tokens is the value
again. Both stages hold in the middle of a text, so that they go along the value: the
first leaves alone what follows, the second also what encloses.

A number beyond 64 bits is written and does not come back as the number it was, so the
draft of a value is not always the value itself. It is for the words that units consist of.
-/

namespace OpLint.Json

open Token (EndsNumber)

namespace Value

/-! ## Tokens -/

mutual

/-- The tokens of a value. -/
def tokens : Value → List Token
  | null => [.null]
  | bool b => [.bool b]
  | number n => [.ofNat n]
  | string s => [.string (some s)]
  | array [] => [.openArray, .closeArray]
  | array (v :: vs) => .openArray :: (v.tokens ++ moreItems vs)
  | object [] => [.openObject, .closeObject]
  | object ((k, v) :: ms) =>
    .openObject :: .string (some k) :: .colon :: (v.tokens ++ moreMembers ms)

/-- The tokens after an item of an array. -/
def moreItems : List Value → List Token
  | [] => [.closeArray]
  | v :: vs => .comma :: (v.tokens ++ moreItems vs)

/-- The tokens after a member of an object. -/
def moreMembers : List (String × Value) → List Token
  | [] => [.closeObject]
  | (k, v) :: ms => .comma :: .string (some k) :: .colon :: (v.tokens ++ moreMembers ms)

end

theorem intercalate_comma_cons (cs : List Char) (ss : List String) :
    [','].intercalate (cs :: ss.map String.toList) = cs ++ ss.flatMap fun t => ',' :: t.toList := by
  induction ss generalizing cs with
  | nil => simp
  | cons t ss ih =>
      rw [List.map_cons, List.intercalate_cons_cons, ih]
      simp

theorem endsNumber_newline (depth : Nat) (rest : List Char) :
    EndsNumber ((newline depth).toList ++ rest) := by
  rw [newline, String.toList_append]
  exact EndsNumber.cons rfl

theorem endsNumber_commas (ss : List String) {rest : List Char} (h : EndsNumber rest) :
    EndsNumber ((ss.flatMap fun t => ',' :: t.toList) ++ rest) := by
  cases ss with
  | nil => exact h
  | cons s ss => exact EndsNumber.cons rfl

mutual

theorem ofText_indentedAt (depth : Nat) (v : Value) (rest : List Char) (h : EndsNumber rest) :
    Token.ofText ((v.indentedAt depth).toList ++ rest) = v.tokens ++ Token.ofText rest := by
  match v with
  | null => exact Token.ofText_null
  | bool true => exact Token.ofText_true
  | bool false => exact Token.ofText_false
  | number n => exact Token.ofText_toString n h
  | string s => exact Token.ofText_quote s
  | array [] => simp [indentedAt, tokens]
  | array (v :: vs) =>
      have hmore := ofText_moreItems depth vs rest
      have hitem := ofText_indentedAt (depth + 1) v _ <|
        endsNumber_commas (indentedItems (depth + 1) vs) <|
          endsNumber_newline depth (']' :: rest)
      rw [hmore] at hitem
      simp [indentedAt, indentedItems, intercalate_comma_cons, Token.ofText_newline, tokens, hitem]
  | object [] => simp [indentedAt, tokens]
  | object ((k, v) :: ms) =>
      have hmore := ofText_moreMembers depth ms rest
      have hmember := ofText_indentedAt (depth + 1) v _ <|
        endsNumber_commas (indentedMembers (depth + 1) ms) <|
          endsNumber_newline depth ('\x7d' :: rest)
      rw [hmore] at hmember
      simp [indentedAt, indentedMembers, intercalate_comma_cons, Token.ofText_newline,
        Token.ofText_quote, Token.ofText_space, tokens, hmember]

/-- The commas, items and closing bracket after an item. -/
theorem ofText_moreItems (depth : Nat) (vs : List Value) (rest : List Char) :
    Token.ofText (((indentedItems (depth + 1) vs).flatMap fun t => ',' :: t.toList) ++
        ((newline depth).toList ++ ']' :: rest)) = moreItems vs ++ Token.ofText rest := by
  match vs with
  | [] => simp [indentedItems, moreItems, Token.ofText_newline]
  | v :: vs =>
      have hmore := ofText_moreItems depth vs rest
      have hitem := ofText_indentedAt (depth + 1) v _ <|
        endsNumber_commas (indentedItems (depth + 1) vs) <|
          endsNumber_newline depth (']' :: rest)
      rw [hmore] at hitem
      simp [indentedItems, moreItems, Token.ofText_newline, hitem]

theorem ofText_moreMembers (depth : Nat) (ms : List (String × Value)) (rest : List Char) :
    Token.ofText (((indentedMembers (depth + 1) ms).flatMap fun t => ',' :: t.toList) ++
        ((newline depth).toList ++ '\x7d' :: rest)) = moreMembers ms ++ Token.ofText rest := by
  match ms with
  | [] => simp [indentedMembers, moreMembers, Token.ofText_newline]
  | (k, v) :: ms =>
      have hmore := ofText_moreMembers depth ms rest
      have hmember := ofText_indentedAt (depth + 1) v _ <|
        endsNumber_commas (indentedMembers (depth + 1) ms) <|
          endsNumber_newline depth ('\x7d' :: rest)
      rw [hmore] at hmember
      simp [indentedMembers, moreMembers, Token.ofText_newline, Token.ofText_quote,
        Token.ofText_space, hmember]

end

/-! ## Drafts -/

mutual

/-- What a value is read back as. -/
def draft : Value → Draft
  | null => .null
  | bool b => .bool b
  | number n =>
    (Decimal.Numeral.value ⟨false, Nat.toDigits 10 n, [], none⟩).elim .unreadable .number
  | string s => .string s
  | array vs => .array (drafts vs) .closed
  | object ms => .object (memberDrafts ms) .closed

def drafts : List Value → List Draft
  | [] => []
  | v :: vs => v.draft :: drafts vs

def memberDrafts : List (String × Value) → List (Key × Draft)
  | [] => []
  | (k, v) :: ms => (some k, v.draft) :: memberDrafts ms

end

theorem draft_number {n : Nat} (h : n ≤ Decimal.greatestWord) :
    (number n).draft = .number (.natural n) := by
  have hvalue := Token.ofNat_eq h
  rw [Token.ofNat, Token.number.injEq] at hvalue
  rw [draft, hvalue]
  rfl

theorem drafts_eq_map (vs : List Value) : drafts vs = vs.map draft := by
  induction vs with
  | nil => rfl
  | cons v vs ih => rw [drafts, ih, List.map_cons]

theorem memberDrafts_eq_map (ms : List (String × Value)) :
    memberDrafts ms = (ms.map fun (k, v) => (k, v.draft)).map fun (k, d) => (some k, d) := by
  induction ms with
  | nil => rfl
  | cons m ms ih => rw [memberDrafts, ih, List.map_cons, List.map_cons]

open Draft (resume Frame)

/-- The first token of a value closes nothing. -/
theorem exists_tokens_eq (v : Value) : ∃ t ts, v.tokens = t :: ts ∧ t ≠ .closeArray := by
  match v with
  | null | bool _ | number _ | string _ => exact ⟨_, [], rfl, by simp [Token.ofNat]⟩
  | array [] | array (_ :: _) | object [] | object (_ :: _) => exact ⟨_, _, rfl, by simp⟩

mutual

theorem resume_tokens (frames : List Frame) (v : Value) (ts : List Token) :
    resume frames .value (v.tokens ++ ts) = resume frames (.separator v.draft) ts := by
  match v with
  | null | bool _ | string _ => rfl
  | number n => rfl
  | array [] => rfl
  | array (v :: vs) =>
      obtain ⟨t, more, htokens, ht⟩ := exists_tokens_eq v
      have hopen : resume frames .value ((array (v :: vs)).tokens ++ ts) =
          resume (.items [] :: frames) .value (v.tokens ++ (moreItems vs ++ ts)) := by
        rw [tokens, htokens]
        simp [resume, ht]
      rw [hopen, resume_tokens, resume_moreItems]
      rfl
  | object [] => rfl
  | object ((k, v) :: ms) =>
      have hopen : resume frames .value ((object ((k, v) :: ms)).tokens ++ ts) =
          resume (.members [] (some k) :: frames) .value (v.tokens ++ (moreMembers ms ++ ts)) := by
        rw [tokens, ← List.append_assoc]
        rfl
      rw [hopen, resume_tokens, resume_moreMembers]
      rfl

theorem resume_moreItems (frames : List Frame) (seen : List Draft) (d : Draft) (vs : List Value)
    (ts : List Token) :
    resume (.items seen :: frames) (.separator d) (moreItems vs ++ ts) =
      resume frames (.separator (.array (seen.reverse ++ d :: drafts vs) .closed)) ts := by
  match vs with
  | [] => simp [moreItems, resume, drafts]
  | v :: vs => simp [moreItems, resume, drafts, resume_tokens, resume_moreItems]

theorem resume_moreMembers (frames : List Frame) (seen : List (Key × Draft)) (k : String)
    (d : Draft) (ms : List (String × Value)) (ts : List Token) :
    resume (.members seen (some k) :: frames) (.separator d) (moreMembers ms ++ ts) =
      resume frames
        (.separator (.object (seen.reverse ++ (some k, d) :: memberDrafts ms) .closed)) ts := by
  match ms with
  | [] => simp [moreMembers, resume, memberDrafts]
  | (k, v) :: ms => simp [moreMembers, resume, memberDrafts, resume_tokens, resume_moreMembers]

end

/-- The text of a value is read back to its end. -/
theorem ofText_indented (v : Value) : Draft.ofText v.indented = (v.draft, true) := by
  have htokens := ofText_indentedAt 0 v [] Token.endsNumber_nil
  rw [List.append_nil, Token.ofText] at htokens
  rw [Draft.ofText, indented, htokens, resume_tokens, resume]
  rfl

end Value

end OpLint.Json
