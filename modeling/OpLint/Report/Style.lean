import OpLint.Text.Replace

/-!
# Text styles of a terminal

A styled text starts with the code of its style and ends with the code that resets
all styles. Where the text itself resets them, the style is taken up again.
-/

namespace OpLint

/-- The parameters of a style, as a terminal takes them. -/
structure Style where
  parameters : String
  deriving DecidableEq, Repr

namespace Style

def bold : Style := ⟨"1"⟩
def dimmed : Style := ⟨"2"⟩
def boldRed : Style := ⟨"1;31"⟩
def boldYellow : Style := ⟨"1;33"⟩
def boldCyan : Style := ⟨"1;36"⟩
def brightBlue : Style := ⟨"94"⟩

def code (s : Style) : String :=
  "\x1b[" ++ s.parameters ++ "m"

def reset : String := code ⟨"0"⟩

def apply (s : Style) (text : String) : String :=
  s.code ++ Text.replace text reset (reset ++ s.code) ++ reset

end Style

end OpLint
