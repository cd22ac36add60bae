/-!
Byte ranges of a source text. Positions are 32-bit words, so a text longer than four gibibytes has
no faithful positions.
-/
namespace GoPackages.Source

structure Span where
  start : UInt32
  stop : UInt32
  deriving DecidableEq, Repr

namespace Span

def ofPositions (start stop : Nat) : Span := ⟨UInt32.ofNat start, UInt32.ofNat stop⟩

/-- A range that ends before it starts is empty. -/
def length (s : Span) : UInt32 := if s.start ≤ s.stop then s.stop - s.start else 0

def isEmpty (s : Span) : Bool := s.length == 0

end Span

end GoPackages.Source
