/-!
# Vocabularies

A vocabulary is a finite type whose values each have one written word. Its words
are what configuration and stored units use; the order of `all` is the order in
which messages list them.
-/

namespace OpLint

class Vocabulary (α : Type) where
  all : List α
  word : α → String

namespace Vocabulary

variable {α : Type} [Vocabulary α]

def words (α : Type) [Vocabulary α] : List String :=
  (all : List α).map word

/-- The value that is written `w`. -/
def ofWord? (w : String) : Option α :=
  all.find? (word · == w)

end Vocabulary

end OpLint
