import OpLint.Text.Replace

/-!
# Message templates

A template holds placeholders: a decimal index in braces. Filling one puts the
arguments in one after the other, each into the text that the earlier ones left,
so an argument that spells a later placeholder is filled in turn.
-/

namespace OpLint.Text.Template

/-- The placeholder of argument `i`. -/
def placeholder (i : Nat) : String :=
  "\x7b" ++ toString i ++ "\x7d"

/-- Puts `args` in for the placeholders from `i` on. -/
def fillFrom (i : Nat) (text : String) : List String → String
  | [] => text
  | arg :: args => fillFrom (i + 1) (replace text (placeholder i) arg) args

def fill (template : String) (args : List String) : String :=
  fillFrom 0 template args

end OpLint.Text.Template
