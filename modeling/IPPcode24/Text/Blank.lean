import IPPcode24.Text.Spans

/-!
# White space

The Unicode property White_Space, which parts the words of a line and is dropped around a typed
line of input.

* `blank`, `isBlank`   the property
* `trim`               a text without the white space at its two ends
-/

namespace IPPcode24

def blank : List (Nat × Nat) :=
  [(0x9, 0xD), (0x20, 0x20), (0x85, 0x85), (0xA0, 0xA0), (0x1680, 0x1680), (0x2000, 0x200A),
  (0x2028, 0x2029), (0x202F, 0x202F), (0x205F, 0x205F), (0x3000, 0x3000)]
def isBlank (c : Char) : Bool := inSpans blank c

/-- a text without the white space at its two ends -/
def trim (s : List Char) : List Char :=
  ((s.dropWhile isBlank).reverse.dropWhile isBlank).reverse

theorem dropWhile_of_forall (s : List Char) (h : ∀ c ∈ s, isBlank c = false) :
    s.dropWhile isBlank = s := by
  cases s with
  | nil => rfl
  | cons c s => exact List.dropWhile_cons_of_neg (by rw [h c List.mem_cons_self]; decide)

/-- a text without white space is trimmed -/
theorem trim_of_forall (s : List Char) (h : ∀ c ∈ s, isBlank c = false) : trim s = s := by
  have hr : ∀ c ∈ s.reverse, isBlank c = false := fun c hc => h c (List.mem_reverse.mp hc)
  rw [trim, dropWhile_of_forall s h, dropWhile_of_forall s.reverse hr, List.reverse_reverse]

end IPPcode24
