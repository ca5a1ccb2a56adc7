/-!
# Sets of characters as spans of code points

A property of characters is a list of spans `(first, last)`, both ends included, in increasing
order and without a common point.

* `inSpans spans c`   the code point of `c` lies in one of the spans
-/

namespace IPPcode24

/-- the code point of `c` lies in one of the spans -/
def inSpans (spans : List (Nat × Nat)) (c : Char) : Bool :=
  spans.any fun s => decide (s.1 ≤ c.toNat) && decide (c.toNat ≤ s.2)

theorem inSpans_iff (spans : List (Nat × Nat)) (c : Char) :
    inSpans spans c = true ↔ ∃ s ∈ spans, s.1 ≤ c.toNat ∧ c.toNat ≤ s.2 := by
  simp [inSpans]

end IPPcode24
