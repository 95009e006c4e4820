import Mathlib.Algebra.Order.BigOperators.Group.List
import Mathlib.Algebra.Order.Group.Nat
import Mathlib.Data.List.Basic
import Mathlib.Logic.Function.Basic
import OpLint.Proofs.Text.Template

/-!
# Filling a template, and substituting in it

Substituting reads a template once: it consists of placeholders and other characters, and each
argument takes the places of its own placeholder. Filling replaces one placeholder after the
other in the text that has come of it so far, so it cannot tell the template's placeholders from
those in an argument, or from one that an argument and the text around it make up.

A placeholder starts with its only opening brace. So placeholders never overlap, replacing one
in any text is substituting for it in the pieces of that text, and a placeholder of the template
stays one, whatever is put in before and after it. The pieces of a filled text are therefore the
template's own placeholders and others, which are told apart by a mark. Filling and substituting
part where there are others of the index put in next, that is, more than the template has.
-/

namespace OpLint.Text.Template

variable {text rest : List Char} {filling : Nat → String} {r : String} {i k : Nat}

/-! ## The pieces of a text -/

/-- The index of the placeholder that a text starts with. -/
def index? (text : List Char) : Option Nat :=
  let i := Nat.ofDigitChars 10 ((text.drop 1).takeWhile Char.isDigit) 0
  if (placeholder i).toList.isPrefixOf text then some i else none

/-- What a text consists of: placeholders, and other characters. -/
inductive Piece where
  | char (c : Char)
  | hole (i : Nat)
  deriving DecidableEq, Repr

theorem toList_placeholder (i : Nat) :
    (placeholder i).toList = '\x7b' :: (Nat.toDigits 10 i ++ ['\x7d']) := by
  rw [placeholder, String.toList_append, String.toList_append]
  show _ ++ i.repr.toList ++ _ = _
  rw [Nat.toList_repr]
  rfl

/-- The pieces of a text, from the left. -/
def pieces : List Char → List Piece
  | [] => []
  | c :: cs =>
    match index? (c :: cs) with
    | some i => .hole i :: pieces ((c :: cs).drop (placeholder i).length)
    | none => .char c :: pieces cs
termination_by text => text.length
decreasing_by
  · have hpos : 0 < (placeholder i).length := by
      rw [← String.length_toList, toList_placeholder]
      exact Nat.succ_pos _
    simp only [List.length_drop, List.length_cons]
    omega
  · simp

/-- What is written for a piece when `filling` is put in for the placeholders. -/
def Piece.render (filling : Nat → String) : Piece → List Char
  | .char c => [c]
  | .hole i => (filling i).toList

def render (filling : Nat → String) (ps : List Piece) : List Char :=
  ps.flatMap (Piece.render filling)

/-- What takes the place of placeholder `i`: its argument, or itself if there is none. -/
def argument (args : List String) (i : Nat) : String :=
  args[i]?.getD (placeholder i)

/-- The template with the arguments put in for its own placeholders. -/
def substitute (template : String) (args : List String) : String :=
  .ofList (render (argument args) (pieces template.toList))

/-- How often the placeholder of argument `k` occurs in a text. -/
def occurrences (k : Nat) (text : String) : Nat :=
  (pieces text.toList).count (.hole k)

/-! ## Where placeholders are -/

theorem brace_not_mem_tail (i : Nat) : '\x7b' ∉ Nat.toDigits 10 i ++ ['\x7d'] := by
  intro h
  rcases List.mem_append.1 h with h | h
  · exact absurd (Nat.isDigit_of_mem_toDigits (by decide) (by decide) h) (by decide)
  · exact absurd (List.mem_singleton.1 h) (by decide)

theorem index?_placeholder_append (i : Nat) (rest : List Char) :
    index? ((placeholder i).toList ++ rest) = some i := by
  have hdigits : (((placeholder i).toList ++ rest).drop 1).takeWhile Char.isDigit =
      Nat.toDigits 10 i := by
    rw [toList_placeholder, List.cons_append, List.drop_one, List.tail_cons, List.append_assoc,
      List.takeWhile_append_of_pos fun c hc =>
        Nat.isDigit_of_mem_toDigits (by decide) (by decide) hc]
    exact List.append_nil _
  rw [index?, hdigits, Nat.ofDigitChars_ten_toDigits]
  exact if_pos (List.isPrefixOf_iff_prefix.2 (List.prefix_append _ _))

theorem index?_eq_some_iff :
    index? text = some i ↔ ∃ rest, text = (placeholder i).toList ++ rest := by
  constructor
  · intro h
    rw [index?] at h
    split at h
    · next hprefix =>
        cases h
        obtain ⟨rest, hrest⟩ := List.isPrefixOf_iff_prefix.1 hprefix
        exact ⟨rest, hrest.symm⟩
    · cases h
  · rintro ⟨rest, rfl⟩
    exact index?_placeholder_append i rest

theorem index?_eq_none_iff :
    index? text = none ↔ ∀ i rest, text ≠ (placeholder i).toList ++ rest := by
  rw [Option.eq_none_iff_forall_ne_some]
  exact forall_congr' fun i => (not_congr index?_eq_some_iff).trans not_exists

theorem pieces_nil : pieces [] = [] := by
  rw [pieces]

theorem pieces_placeholder_append (i : Nat) (rest : List Char) :
    pieces ((placeholder i).toList ++ rest) = .hole i :: pieces rest := by
  have hindex := index?_placeholder_append i rest
  have hdrop : ((placeholder i).toList ++ rest).drop (placeholder i).length = rest := by
    rw [← String.length_toList, List.drop_left]
  rw [toList_placeholder, List.cons_append] at hindex hdrop ⊢
  rw [pieces, hindex]
  exact congrArg (Piece.hole i :: pieces ·) hdrop

theorem pieces_cons_of_none {c : Char} {cs : List Char} (h : index? (c :: cs) = none) :
    pieces (c :: cs) = .char c :: pieces cs := by
  rw [pieces, h]

/-- A text is empty, starts with a placeholder, or starts with a character that starts none. -/
theorem pieces_induction {motive : List Char → Prop} (nil : motive [])
    (hole : ∀ i rest, motive rest → motive ((placeholder i).toList ++ rest))
    (char : ∀ c cs, index? (c :: cs) = none → motive cs → motive (c :: cs)) (text : List Char) :
    motive text := by
  fun_induction pieces text with
  | case1 => exact nil
  | case2 c cs i hi ih =>
      obtain ⟨rest, hrest⟩ := index?_eq_some_iff.1 hi
      rw [hrest, ← String.length_toList, List.drop_left] at ih
      exact hrest ▸ hole i rest ih
  | case3 c cs hnone ih => exact char c cs hnone ih

theorem render_cons (filling : Nat → String) (p : Piece) (ps : List Piece) :
    render filling (p :: ps) = p.render filling ++ render filling ps :=
  List.flatMap_cons

theorem Piece.render_update_self (filling : Nat → String) (k : Nat) (r : String) :
    (hole k).render (Function.update filling k r) = r.toList := by
  rw [render, Function.update_self]

theorem Piece.render_update_of_ne {p : Piece} (hp : p ≠ .hole k) (filling : Nat → String)
    (r : String) : p.render (Function.update filling k r) = p.render filling := by
  cases p with
  | char c => rfl
  | hole i => rw [render, render, Function.update_of_ne fun h => hp (congrArg hole h)]

/-- No part of the text is lost. -/
theorem render_placeholder (text : List Char) : render placeholder (pieces text) = text := by
  induction text using pieces_induction with
  | nil => rw [pieces_nil, render, List.flatMap_nil]
  | hole i rest ih => rw [pieces_placeholder_append, render_cons, ih, Piece.render]
  | char c cs hnone ih =>
      rw [pieces_cons_of_none hnone, render_cons, ih, Piece.render, List.singleton_append]

/-- A placeholder does not go on over an opening brace. -/
theorem index?_cons_append_brace {c : Char} {cs : List Char} (h : index? (c :: cs) = none)
    (rest : List Char) : index? (c :: (cs ++ '\x7b' :: rest)) = none := by
  rw [index?_eq_none_iff] at h ⊢
  intro i rest' hrest
  rw [← List.cons_append, List.append_eq_append_iff] at hrest
  obtain ⟨tail, hplaceholder, htail⟩ | ⟨tail, htext, -⟩ := hrest
  · cases tail with
    | nil => exact h i [] (by rw [hplaceholder, List.append_nil, List.append_nil])
    | cons b tail =>
        cases htail
        rw [toList_placeholder] at hplaceholder
        refine brace_not_mem_tail i ?_
        rw [(List.cons.inj hplaceholder).2]
        exact List.mem_append_right _ List.mem_cons_self
  · exact h i tail htext

theorem pieces_append_brace (text rest : List Char) :
    pieces (text ++ '\x7b' :: rest) = pieces text ++ pieces ('\x7b' :: rest) := by
  induction text using pieces_induction with
  | nil => rw [pieces_nil, List.nil_append, List.nil_append]
  | hole i text ih =>
      rw [List.append_assoc, pieces_placeholder_append, pieces_placeholder_append, ih,
        List.cons_append]
  | char c cs hnone ih =>
      rw [List.cons_append, pieces_cons_of_none (index?_cons_append_brace hnone rest),
        pieces_cons_of_none hnone, ih, List.cons_append]

theorem pieces_append_hole (text rest : List Char) (i : Nat) :
    pieces (text ++ ((placeholder i).toList ++ rest)) = pieces text ++ .hole i :: pieces rest := by
  rw [← pieces_placeholder_append, toList_placeholder]
  exact pieces_append_brace text _

/-! ## Replacing one placeholder -/

theorem replaceAll_placeholder_cons {c : Char} {cs : List Char} (h : index? (c :: cs) ≠ some k)
    (r : List Char) :
    replaceAll (placeholder k).toList r (c :: cs) =
      c :: replaceAll (placeholder k).toList r cs := by
  rw [replaceAll, if_neg]
  rintro ⟨-, hprefix⟩
  obtain ⟨rest, hrest⟩ := List.isPrefixOf_iff_prefix.1 hprefix
  exact h (index?_eq_some_iff.2 ⟨rest, hrest.symm⟩)

theorem replaceAll_placeholder (k : Nat) (r : String) (text : List Char) :
    replaceAll (placeholder k).toList r.toList text =
      render (Function.update placeholder k r) (pieces text) := by
  induction text using pieces_induction with
  | nil => rw [pieces_nil, replaceAll, render, List.flatMap_nil]
  | hole i rest ih =>
      rw [pieces_placeholder_append, render_cons]
      by_cases hi : i = k
      · subst hi
        rw [toList_placeholder] at ih ⊢
        rw [replaceAll_pattern_append, ih, Piece.render_update_self]
      · have hindex : index? ((placeholder i).toList ++ rest) ≠ some k := by
          rw [index?_placeholder_append]
          exact fun h => hi (Option.some.inj h)
        rw [Piece.render_update_of_ne (fun h => hi (Piece.hole.inj h)), Piece.render]
        -- past its brace the other placeholder has none, and is copied as a whole
        rw [toList_placeholder i, List.cons_append] at hindex ⊢
        rw [replaceAll_placeholder_cons hindex]
        rw [toList_placeholder k] at ih ⊢
        rw [replaceAll_append_of_not_mem (brace_not_mem_tail i), ih, List.cons_append]
  | char c cs hnone ih =>
      have hindex : index? (c :: cs) ≠ some k := by
        rw [hnone]
        exact (Option.some_ne_none k).symm
      rw [pieces_cons_of_none hnone, replaceAll_placeholder_cons hindex, ih, render_cons,
        Piece.render, List.singleton_append]

/-! ## The places of the template -/

/-- A piece of a filled text, or one of the template's own places for the argument put in next. -/
def renderMarked (r : String) : Option Piece → List Char
  | none => r.toList
  | some p => p.render placeholder

/-- The template's own placeholders stay placeholders of the filled text, with the pieces of
what has been written in between around them. -/
theorem exists_marked (hk : filling k = placeholder k) (before : List Char) (ps : List Piece) :
    ∃ marked : List (Option Piece),
      pieces (before ++ render filling ps) = marked.map (·.getD (.hole k)) ∧
      (∀ r, before ++ render (Function.update filling k r) ps =
        marked.flatMap (renderMarked r)) ∧
      marked.count none = ps.count (.hole k) := by
  have hbefore (before : List Char) (r : String) :
      ((pieces before).map some).flatMap (renderMarked r) = before := by
    rw [List.flatMap_map]
    exact render_placeholder before
  have hgetD (before : List Char) :
      ((pieces before).map some).map (·.getD (.hole k)) = pieces before := by
    rw [List.map_map]
    exact List.map_id _
  have hcount (before : List Char) : ((pieces before).map some).count none = 0 :=
    List.count_eq_zero.2 (by simp)
  induction ps generalizing before with
  | nil =>
      refine ⟨(pieces before).map some, ?_, fun r => ?_, hcount before⟩
      · rw [render, List.flatMap_nil, List.append_nil, hgetD]
      · rw [render, List.flatMap_nil, List.append_nil, hbefore]
  | cons p ps ih =>
      by_cases hp : p = .hole k
      · subst hp
        obtain ⟨marked, hpieces, hrender, hmarked⟩ := ih []
        refine ⟨(pieces before).map some ++ none :: marked, ?_, fun r => ?_, ?_⟩
        · rw [List.nil_append] at hpieces
          rw [render_cons, Piece.render, hk, pieces_append_hole, hpieces, List.map_append, hgetD,
            List.map_cons, Option.getD_none]
        · rw [render_cons, Piece.render_update_self, List.flatMap_append, hbefore,
            List.flatMap_cons, ← hrender r, List.nil_append, renderMarked]
        · rw [List.count_append, hcount, List.count_cons_self, List.count_cons_self, hmarked,
            Nat.zero_add]
      · obtain ⟨marked, hpieces, hrender, hmarked⟩ := ih (before ++ p.render filling)
        refine ⟨marked, ?_, fun r => ?_, ?_⟩
        · rw [← hpieces, List.append_assoc, render_cons]
        · rw [← hrender r, List.append_assoc, render_cons, Piece.render_update_of_ne hp]
        · rw [hmarked, List.count_cons_of_ne hp]

/-! ## One step -/

theorem count_map_getD {α : Type} [DecidableEq α] (a : α) (xs : List (Option α)) :
    (xs.map (·.getD a)).count a = xs.count none + xs.count (some a) := by
  induction xs with
  | nil => rfl
  | cons x xs ih =>
      cases x with
      | none =>
          rw [List.map_cons, Option.getD_none, List.count_cons_self, List.count_cons_self,
            List.count_cons_of_ne (by simp), ih]
          omega
      | some b =>
          rw [List.map_cons, Option.getD_some, List.count_cons_of_ne (show some b ≠ none by simp)]
          by_cases hb : b = a
          · subst hb
            rw [List.count_cons_self, List.count_cons_self, ih]
            omega
          · rw [List.count_cons_of_ne hb, List.count_cons_of_ne (by simpa using hb), ih]

theorem flatMap_eq_flatMap_iff {α β : Type} {f g : α → List β} {xs : List α}
    (hle : ∀ x ∈ xs, (f x).length ≤ (g x).length) :
    xs.flatMap f = xs.flatMap g ↔ ∀ x ∈ xs, f x = g x := by
  refine ⟨fun h => ?_, List.flatMap_congr⟩
  induction xs with
  | nil => exact fun x hx => absurd hx List.not_mem_nil
  | cons x xs ih =>
      have hx := hle x List.mem_cons_self
      have hxs : ∀ y ∈ xs, (f y).length ≤ (g y).length :=
        fun y hy => hle y (List.mem_cons_of_mem x hy)
      have hrest : (xs.flatMap f).length ≤ (xs.flatMap g).length := by
        rw [List.length_flatMap, List.length_flatMap]
        exact List.sum_le_sum hxs
      rw [List.flatMap_cons, List.flatMap_cons] at h
      have hlength := congrArg List.length h
      rw [List.length_append, List.length_append] at hlength
      obtain ⟨hhead, htail⟩ := List.append_inj h (by omega)
      exact List.forall_mem_cons.2 ⟨hhead, ih hxs htail⟩

/-- Replacing tells one kind of piece from the marked text: a placeholder that is not marked. -/
theorem render_getD (k : Nat) (r : String) (m : Option Piece) :
    (m.getD (.hole k)).render (Function.update placeholder k r) =
      if m = some (.hole k) then r.toList else renderMarked r m := by
  cases m with
  | none =>
      rw [Option.getD_none, Piece.render_update_self, if_neg (Option.some_ne_none _).symm,
        renderMarked]
  | some p =>
      rw [Option.getD_some]
      by_cases hp : p = .hole k
      · rw [hp, Piece.render_update_self, if_pos rfl]
      · rw [Piece.render_update_of_ne hp, if_neg (by simpa using hp), renderMarked]

theorem flatMap_renderMarked_iff (k : Nat) (r : String) (marked : List (Option Piece)) :
    (marked.flatMap fun m => (m.getD (.hole k)).render (Function.update placeholder k r)) =
        marked.flatMap (renderMarked r) ↔
      r = placeholder k ∨ some (.hole k) ∉ marked := by
  have hpieces : (∀ m ∈ marked,
      (m.getD (.hole k)).render (Function.update placeholder k r) = renderMarked r m) ↔
      r = placeholder k ∨ some (.hole k) ∉ marked := by
    simp only [render_getD]
    constructor
    · intro h
      refine or_iff_not_imp_right.2 fun hmem => String.toList_injective ?_
      exact (if_pos rfl).symm.trans (h _ (not_not.1 hmem))
    · intro h m hm
      split
      · next heq =>
          subst heq
          exact congrArg String.toList (h.resolve_right (not_not.2 hm))
      · rfl
  rw [← hpieces]
  -- the pieces that differ all do so by the same number of characters
  rcases Nat.le_total r.toList.length (placeholder k).toList.length with hle | hle
  · refine flatMap_eq_flatMap_iff fun m _ => ?_
    rw [render_getD]
    split
    · next heq => exact heq ▸ hle
    · exact Nat.le_refl _
  · rw [eq_comm, flatMap_eq_flatMap_iff]
    · exact forall₂_congr fun _ _ => eq_comm
    · intro m _
      rw [render_getD]
      split
      · next heq => exact heq ▸ hle
      · exact Nat.le_refl _

/-- Putting one argument in leaves the text of the earlier ones alone if and only if no
placeholder like it has come up in between. -/
theorem replaceAll_render_iff (hk : filling k = placeholder k) (ps : List Piece) (r : String) :
    replaceAll (placeholder k).toList r.toList (render filling ps) =
        render (Function.update filling k r) ps ↔
      r = placeholder k ∨ (pieces (render filling ps)).count (.hole k) = ps.count (.hole k) := by
  obtain ⟨marked, hpieces, hrender, hmarked⟩ := exists_marked hk [] ps
  rw [List.nil_append] at hpieces
  rw [replaceAll_placeholder, hpieces, ← List.nil_append (render (Function.update filling k r) ps),
    hrender r, render, List.flatMap_map, flatMap_renderMarked_iff, count_map_getD, hmarked,
    Nat.add_eq_left, List.count_eq_zero]

/-! ## All steps -/

theorem fillFrom_concat (i : Nat) (text : String) (args : List String) (arg : String) :
    fillFrom i text (args ++ [arg]) =
      replace (fillFrom i text args) (placeholder (i + args.length)) arg := by
  induction args generalizing i text with
  | nil => rfl
  | cons a args ih =>
      rw [List.cons_append, fillFrom, fillFrom, ih, List.length_cons, Nat.add_right_comm,
        Nat.add_assoc]

theorem fill_concat (template : String) (args : List String) (arg : String) :
    fill template (args ++ [arg]) = replace (fill template args) (placeholder args.length) arg := by
  rw [fill, fillFrom_concat, Nat.zero_add]
  rfl

theorem argument_nil : argument [] = placeholder :=
  rfl

theorem argument_of_length_le {args : List String} (hk : args.length ≤ k) :
    argument args k = placeholder k := by
  rw [argument, List.getElem?_eq_none hk, Option.getD_none]

theorem argument_concat (args : List String) (arg : String) :
    argument (args ++ [arg]) = Function.update (argument args) args.length arg := by
  funext i
  rcases Nat.lt_trichotomy i args.length with hi | rfl | hi
  · rw [Function.update_of_ne (Nat.ne_of_lt hi), argument, List.getElem?_append_left hi, argument]
  · rw [Function.update_self, argument, List.getElem?_concat_length, Option.getD_some]
  · have hlength : (args ++ [arg]).length ≤ i := by
      rw [List.length_append]
      exact hi
    rw [Function.update_of_ne (Nat.ne_of_gt hi), argument_of_length_le hlength,
      argument_of_length_le (Nat.le_of_lt hi)]

theorem substitute_nil (template : String) : substitute template [] = template := by
  rw [substitute, argument_nil, render_placeholder, String.ofList_toList]

section

variable {args : List String} {arg : String} (harg : args[k]? = some arg)

include harg

theorem length_take_of_getElem? : (args.take k).length = k :=
  List.length_take_of_le (Nat.le_of_lt (List.getElem?_eq_some_iff.1 harg).1)

theorem take_succ_of_getElem? : args.take (k + 1) = args.take k ++ [arg] := by
  rw [List.take_add_one, harg, Option.toList_some]

theorem fill_take_succ (template : String) :
    fill template (args.take (k + 1)) =
      replace (fill template (args.take k)) (placeholder k) arg := by
  rw [take_succ_of_getElem? harg, fill_concat, length_take_of_getElem? harg]

theorem replace_substitute_take_iff (template : String) :
    replace (substitute template (args.take k)) (placeholder k) arg =
        substitute template (args.take (k + 1)) ↔
      arg = placeholder k ∨
        occurrences k (substitute template (args.take k)) = occurrences k template := by
  have hlength := length_take_of_getElem? harg
  have hown : argument (args.take k) k = placeholder k :=
    argument_of_length_le (Nat.le_of_eq hlength)
  have hnext := argument_concat (args.take k) arg
  rw [hlength, ← take_succ_of_getElem? harg] at hnext
  rw [replace, substitute, substitute, String.ofList_inj, String.toList_ofList, hnext,
    replaceAll_render_iff hown, occurrences, occurrences, String.toList_ofList]

end

/-- As long as no placeholder comes up, filling goes along with substituting. -/
theorem fill_take_eq_substitute {template : String} {args : List String}
    (h : ∀ k arg, args[k]? = some arg → arg = placeholder k ∨
      occurrences k (substitute template (args.take k)) = occurrences k template) :
    ∀ k ≤ args.length, fill template (args.take k) = substitute template (args.take k) := by
  intro k hk
  induction k with
  | zero => exact (substitute_nil template).symm
  | succ k ih =>
      have harg : args[k]? = some args[k] := List.getElem?_eq_getElem hk
      rw [fill_take_succ harg, ih (Nat.le_of_succ_le hk)]
      exact (replace_substitute_take_iff harg template).2 (h k _ harg)

/-! ## Without loose braces -/

theorem pieces_append_of_not_mem {before : List Char} (h : '\x7b' ∉ before) (rest : List Char) :
    pieces (before ++ rest) = before.map .char ++ pieces rest := by
  induction before with
  | nil => rfl
  | cons c before ih =>
      have hnone : index? (c :: (before ++ rest)) = none := by
        refine index?_eq_none_iff.2 fun i rest' hrest => ?_
        rw [toList_placeholder] at hrest
        exact h (List.mem_cons.2 (Or.inl (List.cons.inj hrest).1.symm))
      rw [List.cons_append, pieces_cons_of_none hnone,
        ih fun hmem => h (List.mem_cons_of_mem c hmem)]
      rfl

theorem count_pieces_render (hk : filling k = placeholder k)
    (hfilling : ∀ i, filling i = placeholder i ∨ '\x7b' ∉ (filling i).toList) {ps : List Piece}
    (hps : .char '\x7b' ∉ ps) :
    (pieces (render filling ps)).count (.hole k) = ps.count (.hole k) := by
  have hchars (cs : List Char) : (cs.map Piece.char).count (.hole k) = 0 :=
    List.count_eq_zero.2 (by simp)
  induction ps with
  | nil => rw [render, List.flatMap_nil, pieces_nil]
  | cons p ps ih =>
      have ih := ih fun hmem => hps (List.mem_cons_of_mem p hmem)
      rw [render_cons]
      cases p with
      | char c =>
          have hc : '\x7b' ∉ [c] := fun hmem =>
            hps (List.mem_cons.2 (Or.inl (congrArg _ (List.mem_singleton.1 hmem))))
          rw [Piece.render, pieces_append_of_not_mem hc, List.count_append, hchars, ih,
            Nat.zero_add, List.count_cons_of_ne (show Piece.char c ≠ .hole k by simp)]
      | hole i =>
          rw [Piece.render]
          rcases hfilling i with hi | hi
          · rw [hi, pieces_placeholder_append, List.count_cons, List.count_cons, ih]
          · have hne : i ≠ k := by
              rintro rfl
              rw [hk, toList_placeholder] at hi
              exact hi List.mem_cons_self
            rw [pieces_append_of_not_mem hi, List.count_append, hchars, ih, Nat.zero_add,
              List.count_cons_of_ne (by simpa using hne)]

theorem occurrences_substitute {template : String} {args : List String}
    (hargs : ∀ arg ∈ args, '\x7b' ∉ arg.toList) (htemplate : .char '\x7b' ∉ pieces template.toList)
    (hk : args.length ≤ k) :
    occurrences k (substitute template args) = occurrences k template := by
  rw [occurrences, occurrences, substitute, String.toList_ofList]
  refine count_pieces_render (argument_of_length_le hk) (fun i => ?_) htemplate
  rw [argument]
  cases hi : args[i]? with
  | none => exact Or.inl rfl
  | some arg => exact Or.inr (hargs arg (List.mem_of_getElem? hi))

/-- The texts after each argument are the substituted ones if and only if none of the arguments,
together with the text that it is put into, has brought up a placeholder of a later argument.
Without braces in the arguments and loose braces in the template none can. -/
theorem fill_take_eq_substitute_iff (template : String) (args : List String) :
    ((∀ k ≤ args.length,
        fill template (args.take k) = substitute template (args.take k)) ↔
      ∀ k arg, args[k]? = some arg → arg = placeholder k ∨
        occurrences k (substitute template (args.take k)) = occurrences k template) ∧
    ((∀ arg ∈ args, '\x7b' ∉ arg.toList) → .char '\x7b' ∉ pieces template.toList →
      fill template args = substitute template args) := by
  refine ⟨⟨fun h k arg harg => ?_, fill_take_eq_substitute⟩, fun hargs htemplate => ?_⟩
  · have hk : k < args.length := (List.getElem?_eq_some_iff.1 harg).1
    have hnext := h (k + 1) hk
    rw [fill_take_succ harg, h k (Nat.le_of_lt hk)] at hnext
    exact (replace_substitute_take_iff harg template).1 hnext
  · have hnone : ∀ k arg, args[k]? = some arg → arg = placeholder k ∨
        occurrences k (substitute template (args.take k)) = occurrences k template :=
      fun k arg harg => Or.inr (occurrences_substitute
        (fun arg hmem => hargs arg (List.mem_of_mem_take hmem)) htemplate
        (Nat.le_of_eq (length_take_of_getElem? harg)))
    have hall := fill_take_eq_substitute hnone args.length (Nat.le_refl _)
    rwa [List.take_length] at hall

/-- A placeholder in an argument does no harm if there is no argument for it. -/
theorem fill_take_eq_substitute_harmless :
    fill "\x7b1\x7d: \x7b0\x7d" ["\x7b2\x7d", "b"] = "b: \x7b2\x7d" ∧
      fill "\x7b1\x7d: \x7b0\x7d" ["a", "b"] = "b: a" := by
  have hbraces := (fill_take_eq_substitute_iff "\x7b1\x7d: \x7b0\x7d" ["\x7b2\x7d", "b"]).1.2
    (fun k arg harg => Or.inr ?_) 2 (by decide)
  · have hplain := (fill_take_eq_substitute_iff "\x7b1\x7d: \x7b0\x7d" ["a", "b"]).2 (by decide)
      (by decide +kernel)
    exact ⟨hbraces.trans (by decide +kernel), hplain.trans (by decide +kernel)⟩
  · match k with
    | 0 => decide +kernel
    | 1 => decide +kernel
    | k + 2 => cases harg

/-- A placeholder in an argument is filled, and so is one that an argument completes. -/
theorem fill_expands_arguments :
    ¬ (∀ (template : String) (args : List String), fill template args = substitute template args) ∧
      fill "\x7b0\x7d \x7b1\x7d" ["\x7b1\x7d", "b"] = "b b" ∧
      substitute "\x7b0\x7d \x7b1\x7d" ["\x7b1\x7d", "b"] = "\x7b1\x7d b" ∧
      fill "\x7b\x7b0\x7d\x7d" ["1", "b"] = "b" ∧
      substitute "\x7b\x7b0\x7d\x7d" ["1", "b"] = "\x7b1\x7d" := by
  have hfill : fill "\x7b0\x7d \x7b1\x7d" ["\x7b1\x7d", "b"] = "b b" := by decide +kernel
  have hsubstitute : substitute "\x7b0\x7d \x7b1\x7d" ["\x7b1\x7d", "b"] = "\x7b1\x7d b" := by
    decide +kernel
  refine ⟨fun h => ?_, hfill, hsubstitute, by decide +kernel, by decide +kernel⟩
  have := h "\x7b0\x7d \x7b1\x7d" ["\x7b1\x7d", "b"]
  rw [hfill, hsubstitute] at this
  exact absurd this (by decide)

end OpLint.Text.Template
