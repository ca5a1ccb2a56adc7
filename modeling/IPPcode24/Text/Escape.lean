/-!
# Escapes in string literals

A backslash and exactly three ASCII digits stand for the character with that code; every other
character stands for itself.

* `Escape.char a b c`   the character with the code `abc`
* `Escape.decode? s`    the text that `s` stands for; nothing if a backslash starts no escape
-/

namespace IPPcode24.Escape

/-- the character with the decimal code `abc` -/
def char (a b c : Char) : Char :=
  Char.ofNat (100 * (a.toNat - 48) + 10 * (b.toNat - 48) + (c.toNat - 48))

def decode? : List Char → Option (List Char)
  | [] => some []
  | '\\' :: a :: b :: c :: s =>
    if a.isDigit && b.isDigit && c.isDigit then (decode? s).map (char a b c :: ·) else none
  | c :: s => if c = '\\' then none else (decode? s).map (c :: ·)

theorem decode?_nil : decode? [] = some [] := by rw [decode?]

theorem decode?_escape (a b c : Char) (s : List Char)
    (h : (a.isDigit && b.isDigit && c.isDigit) = true) :
    decode? ('\\' :: a :: b :: c :: s) = (decode? s).map (char a b c :: ·) := by
  rw [decode?, if_pos h]

theorem decode?_cons (c : Char) (s : List Char) (h : c ≠ '\\') :
    decode? (c :: s) = (decode? s).map (c :: ·) := by
  rw [decode?]
  · rw [if_neg h]
  · rintro _ _ _ _ rfl; exact absurd rfl h

end IPPcode24.Escape
