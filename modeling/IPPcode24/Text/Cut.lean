import IPPcode24.Text.Blank

/-!
# Where a text is cut

* `pieces p s`   the stretches of `s` between the characters with `p`, empty ones too
* `words s`      the stretches between white space, empty ones left out
* `unwords ws`   the words with one space between each two
* `cutAt c s`    what stands before and after the first `c`, if there is one
* `lines s`      the lines of a text: each ends at a line feed, which is dropped with one carriage
                 return right before it; a last line without a line feed counts when it is not
                 empty, and keeps its carriage return
-/

namespace IPPcode24

/-! ## pieces and words -/

def pieces (p : Char → Bool) : List Char → List (List Char)
  | [] => [[]]
  | c :: s =>
    if p c then [] :: pieces p s
    else match pieces p s with
      | [] => [[c]]
      | w :: ws => (c :: w) :: ws

def words (s : List Char) : List (List Char) :=
  (pieces isBlank s).filter fun w => !w.isEmpty

def unwords (ws : List (List Char)) : List Char := [' '].intercalate ws

theorem pieces_ne_nil (p : Char → Bool) (s : List Char) : pieces p s ≠ [] := by
  cases s with
  | nil => simp [pieces]
  | cons c s =>
    rw [pieces]
    split
    · simp
    · split <;> simp

theorem pieces_cons_of_pos (p : Char → Bool) (c : Char) (s : List Char) (h : p c = true) :
    pieces p (c :: s) = [] :: pieces p s := by
  rw [pieces, if_pos h]

theorem words_nil : words [] = [] := rfl

theorem words_cons_blank (c : Char) (s : List Char) (h : isBlank c = true) :
    words (c :: s) = words s := by
  rw [words, pieces_cons_of_pos _ _ _ h, words]
  rfl

/-! ## the first occurrence of a character -/

def cutAt (c : Char) : List Char → Option (List Char × List Char)
  | [] => none
  | d :: s => if d = c then some ([], s) else (cutAt c s).map fun t => (d :: t.1, t.2)

theorem cutAt_eq_some (c : Char) (s a b : List Char) :
    cutAt c s = some (a, b) ↔ s = a ++ c :: b ∧ c ∉ a := by
  induction s generalizing a with
  | nil => simp [cutAt]
  | cons d s ih =>
    rw [cutAt]
    by_cases h : d = c
    · subst h
      rw [if_pos rfl]
      cases a with
      | nil => simp [eq_comm]
      | cons e a =>
        simp only [Option.some.injEq, Prod.mk.injEq, List.cons_append, List.cons.injEq]
        constructor
        · rintro ⟨h, _⟩; cases h
        · rintro ⟨⟨rfl, _⟩, h⟩; exact absurd List.mem_cons_self h
    · rw [if_neg h]
      cases a with
      | nil =>
        simp only [Option.map_eq_some_iff, Prod.mk.injEq, List.nil_append, List.cons.injEq]
        constructor
        · rintro ⟨t, _, h, _⟩; cases h
        · rintro ⟨⟨h', _⟩, _⟩; exact absurd h' h
      | cons e a =>
        simp only [Option.map_eq_some_iff, Prod.mk.injEq, List.cons_append, List.cons.injEq,
          List.mem_cons, not_or]
        constructor
        · rintro ⟨⟨x, y⟩, ht, ⟨rfl, rfl⟩, rfl⟩
          obtain ⟨rfl, hn⟩ := (ih _).mp ht
          exact ⟨⟨rfl, rfl⟩, fun h' => h h'.symm, hn⟩
        · rintro ⟨⟨rfl, rfl⟩, _, hn⟩
          exact ⟨(a, b), (ih _).mpr ⟨rfl, hn⟩, ⟨rfl, rfl⟩, rfl⟩

theorem cutAt_eq_none (c : Char) (s : List Char) : cutAt c s = none ↔ c ∉ s := by
  induction s with
  | nil => simp [cutAt]
  | cons d s ih =>
    rw [cutAt]
    by_cases h : d = c
    · simp [h]
    · simp [h, ih, Ne.symm h]

/-! ## lines -/

def lines : List Char → List (List Char)
  | [] => []
  | '\n' :: s => [] :: lines s
  | '\r' :: '\n' :: s => [] :: lines s
  | c :: s =>
    match lines s with
    | [] => [[c]]
    | l :: ls => (c :: l) :: ls

theorem lines_lf (s : List Char) : lines ('\n' :: s) = [] :: lines s := by rw [lines]
theorem lines_cr_lf (s : List Char) : lines ('\r' :: '\n' :: s) = [] :: lines s := by rw [lines]

end IPPcode24
