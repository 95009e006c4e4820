/-!
# Replacing a pattern in a text

Occurrences are found from the left and do not overlap; what replaces one is not
searched again. An empty pattern occurs nowhere.
-/

namespace OpLint.Text

def replaceAll (pattern replacement : List Char) : List Char → List Char
  | [] => []
  | c :: cs =>
    if pattern ≠ [] ∧ pattern.isPrefixOf (c :: cs) then
      replacement ++ replaceAll pattern replacement ((c :: cs).drop pattern.length)
    else
      c :: replaceAll pattern replacement cs
termination_by text => text.length
decreasing_by
  · rename_i h
    have := List.length_pos_iff.2 h.1
    simp only [List.length_drop, List.length_cons]
    omega
  · simp

/-- Replaces a pattern in a string. -/
def replace (text pattern replacement : String) : String :=
  .ofList (replaceAll pattern.toList replacement.toList text.toList)

end OpLint.Text
