/-!
# Letter case

Only the letters `a` to `z` have a case here.

* `upper s`          the text in capital letters
* `sameText s t`     the texts differ at most in case
-/

namespace IPPcode24

def upper (s : List Char) : List Char := s.map Char.toUpper

def sameText (s t : List Char) : Bool := upper s == upper t

theorem sameText_iff (s t : List Char) : sameText s t = true ↔ upper s = upper t := by
  simp [sameText]

end IPPcode24
