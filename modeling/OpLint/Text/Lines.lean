/-!
# Lines and characters of a source text

A line ends after a line feed, after a carriage return and line feed, or after a
lone carriage return. Offsets count bytes; a position counts lines and, within
the line, characters, both from zero.

Line starts and positions are meant to be words of 32 bits, and an offset is one. They are
numbers here, so a text must have fewer than 2 ^ 32 bytes: then all of them fit, and none of
the additions could overflow.
-/

namespace OpLint.Text

structure Position where
  line : Nat
  character : Nat
  deriving DecidableEq, Repr

/-- The byte offsets at which the lines after the first one start, where `offset`
is the offset of the first character given. -/
def lineStartsFrom (offset : Nat) : List Char → List Nat
  | [] => []
  | '\r' :: '\n' :: cs => (offset + 2) :: lineStartsFrom (offset + 2) cs
  | c :: cs =>
    let next := offset + c.utf8Size
    if c = '\n' ∨ c = '\r' then next :: lineStartsFrom next cs else lineStartsFrom next cs

/-- Number of characters before byte `offset`, if a character starts or the text
ends there. -/
def charactersBefore? : List Char → Nat → Option Nat
  | _, 0 => some 0
  | [], _ + 1 => none
  | c :: cs, offset =>
    if offset < c.utf8Size then none
    else (charactersBefore? cs (offset - c.utf8Size)).map (· + 1)

/-- Number of characters between two byte offsets; none are counted when one of
the offsets lies within a character. -/
def charactersBetween (text : List Char) (start stop : Nat) : Nat :=
  match charactersBefore? text start, charactersBefore? text stop with
  | some before, some upTo => upTo - before
  | _, _ => 0

/-- Where each line of a text starts, in ascending order. -/
structure LineTable where
  starts : List Nat
  deriving DecidableEq, Repr, Inhabited

namespace LineTable

/-- The table without lines; every offset counts as one of its first line. -/
def empty : LineTable := ⟨[]⟩

def ofText (text : String) : LineTable :=
  ⟨0 :: lineStartsFrom 0 text.toList⟩

def size (t : LineTable) : Nat :=
  t.starts.length

/-- The last line that starts at or before `offset`. -/
def lineAt (t : LineTable) (offset : Nat) : Nat :=
  t.starts.countP (· ≤ offset) - 1

/-- The position of `offset`, its characters counted in `text`. An offset past the
end counts as the end. -/
def position (t : LineTable) (offset : Nat) (text : String) : Position :=
  let line := t.lineAt offset
  let stop := min offset text.utf8ByteSize
  let start := min (t.starts[line]?.getD 0) stop
  ⟨line, charactersBetween text.toList start stop⟩

end LineTable

end OpLint.Text
