import OpLint.Text.Template

/-!
# Filling one placeholder

Text in which the first character of a pattern does not occur is copied, and what replaces
the pattern is not looked at again. So a template with one placeholder shows its argument
as it is, whatever the argument contains, placeholders included.
-/

namespace OpLint.Text

variable {c : Char} {cs replacement : List Char}

theorem replaceAll_append_of_not_mem {before : List Char} (h : c ∉ before) (rest : List Char) :
    replaceAll (c :: cs) replacement (before ++ rest) =
      before ++ replaceAll (c :: cs) replacement rest := by
  induction before with
  | nil => rfl
  | cons b before ih =>
      have hb : c ≠ b := fun heq => h (heq ▸ List.mem_cons_self)
      have hbefore : c ∉ before := fun hmem => h (List.mem_cons_of_mem b hmem)
      rw [List.cons_append, replaceAll, if_neg (by simp [List.isPrefixOf, hb]), ih hbefore]
      rfl

theorem replaceAll_of_not_mem {text : List Char} (h : c ∉ text) :
    replaceAll (c :: cs) replacement text = text := by
  have happend : replaceAll (c :: cs) replacement (text ++ []) =
      text ++ replaceAll (c :: cs) replacement [] :=
    replaceAll_append_of_not_mem h []
  rw [List.append_nil, replaceAll, List.append_nil] at happend
  exact happend

theorem replaceAll_pattern_append (rest : List Char) :
    replaceAll (c :: cs) replacement (c :: cs ++ rest) =
      replacement ++ replaceAll (c :: cs) replacement rest := by
  rw [List.cons_append, replaceAll, if_pos (by simp)]
  simp

namespace Template

theorem fill_singleton {before after : String} (arg : String) (hbefore : '\x7b' ∉ before.toList)
    (hafter : '\x7b' ∉ after.toList) :
    fill (before ++ placeholder 0 ++ after) [arg] = before ++ arg ++ after := by
  have hplaceholder : (placeholder 0).toList = '\x7b' :: ['0', '\x7d'] := by decide
  rw [fill, fillFrom, fillFrom, replace, hplaceholder]
  simp only [String.toList_append, hplaceholder, List.append_assoc]
  rw [replaceAll_append_of_not_mem hbefore, replaceAll_pattern_append, replaceAll_of_not_mem hafter]
  simp [String.append_assoc]

end Template

end OpLint.Text
