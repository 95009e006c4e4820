/-!
# Spans of source text

A span is a half-open range of bytes, given by two 32-bit words. Nothing orders
the two: a span that ends before it starts is kept as it is and counts as empty.
-/

namespace OpLint

structure Span where
  start : UInt32
  stop : UInt32
  deriving DecidableEq, Repr, Inhabited

namespace Span

/-- The span of synthesized operations. -/
def empty : Span := ⟨0, 0⟩

/-- The span of `length` bytes from `start` on, cut off at the last word. -/
def ofLength (start length : UInt32) : Span :=
  ⟨start, .ofNat (min (start.toNat + length.toNat) (UInt32.size - 1))⟩

def length (s : Span) : UInt32 :=
  .ofNat (s.stop.toNat - s.start.toNat)

def isEmpty (s : Span) : Bool :=
  s.stop ≤ s.start

/-- Whether `inner` starts and ends within `outer`. -/
def contains (outer inner : Span) : Bool :=
  outer.start ≤ inner.start && inner.stop ≤ outer.stop

/-- Spans are ordered by their start, then by their end. -/
def order (a b : Span) : Ordering :=
  (compare a.start b.start).then (compare a.stop b.stop)

def text (s : Span) : String :=
  s!"{s.start.toNat}..{s.stop.toNat}"

end Span

end OpLint
