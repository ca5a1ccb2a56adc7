import IPPcode24.Channel.Input

/-!
# The lines of the input

The reader takes a line when it is asked for one.  Here the input is cut into its lines at once, and
the reader is told by that.

* `Input.segments b`     the input cut behind each line feed
* `Input.textOf p`       the text of a line
* `Input.lineAt b k`     the text of the line of an index, if there is such a line and it has a text
* `Input.behind b k`     the input behind its first `k` lines
* `Input.valueOf t l`    what READ makes of a line
* `Input.line_behind`    **the reader gives the lines one after the other**
* `Input.read_behind`    and READ a value of each
-/

namespace IPPcode24
namespace Input

/-! ## cutting -/

/-- what is behind the last line feed is a line too, unless it is empty -/
def segments : Bytes → List Bytes
  | [] => []
  | x :: b =>
    if x = 0x0A then [x] :: segments b
    else match segments b with
      | [] => [[x]]
      | p :: ps => (x :: p) :: ps

theorem segments_lf (b : Bytes) : segments (0x0A :: b) = [0x0A] :: segments b := if_pos rfl

theorem segments_append_lf (p b : Bytes) (hp : 0x0A ∉ p) :
    segments (p ++ 0x0A :: b) = (p ++ [0x0A]) :: segments b := by
  induction p with
  | nil => exact segments_lf b
  | cons x p ih =>
    rw [List.mem_cons, not_or] at hp
    rw [List.cons_append, segments, if_neg (Ne.symm hp.1), ih hp.2]
    rfl

theorem segments_of_not_mem (p : Bytes) (hp : 0x0A ∉ p) (hne : p ≠ []) : segments p = [p] := by
  induction p with
  | nil => exact absurd rfl hne
  | cons x p ih =>
    rw [List.mem_cons, not_or] at hp
    rw [segments, if_neg (Ne.symm hp.1)]
    cases p with
    | nil => rfl
    | cons y p => rw [ih hp.2 (List.cons_ne_nil y p)]

/-- an input is empty, or one line without a line feed, or begins with one that has it -/
theorem eq_nil_or_line (b : Bytes) :
    b = [] ∨ (b ≠ [] ∧ 0x0A ∉ b) ∨ ∃ p r, 0x0A ∉ p ∧ b = p ++ 0x0A :: r := by
  by_cases h : 0x0A ∈ b
  · obtain ⟨p, r, hb, hp⟩ := List.eq_append_cons_of_mem h
    exact .inr (.inr ⟨p, r, hp, hb⟩)
  · by_cases hb : b = []
    · exact .inl hb
    · exact .inr (.inl ⟨hb, h⟩)

theorem flatten_segments (b : Bytes) : (segments b).flatten = b := by
  induction b with
  | nil => rfl
  | cons x b ih =>
    rw [segments]
    split
    · rw [List.flatten_cons, ih]
      rfl
    · split
      · next h =>
        rw [h] at ih
        rw [← ih]
        rfl
      · next p ps h =>
        rw [h] at ih
        rw [← ih]
        rfl

/-! ## the text of a line -/

/-- without the line feed and a carriage return right before it -/
def textOf (p : Bytes) : Option (List Char) :=
  if p.getLast? = some 0x0A then (utf8? p.dropLast).map dropReturn else utf8? p

def lineAt (b : Bytes) (k : Nat) : Option (List Char) := (segments b)[k]?.bind textOf

def behind (b : Bytes) (k : Nat) : Bytes := ((segments b).drop k).flatten

/-- nil where there is no line -/
def valueOf (t : Ty) : Option (List Char) → Value
  | some s => interpret t s
  | none => .nil

/-! ## the reader -/

/-- a line is taken up to its line feed -/
theorem takeWhile_dropWhile (p b : Bytes) (hp : 0x0A ∉ p) :
    (p ++ b).takeWhile (fun x => x != 0x0A) = p ++ b.takeWhile (fun x => x != 0x0A) ∧
      (p ++ b).dropWhile (fun x => x != 0x0A) = b.dropWhile (fun x => x != 0x0A) := by
  have hall : ∀ x ∈ p, (x != 0x0A) = true := by
    intro x hx
    exact bne_iff_ne.mpr fun h => hp (h ▸ hx)
  exact ⟨List.takeWhile_append_of_pos hall, List.dropWhile_append_of_pos hall⟩

/-- the first line, and what is behind it -/
theorem line_eq (b : Bytes) : line b = (lineAt b 0, behind b 1) := by
  rcases eq_nil_or_line b with rfl | ⟨hne, hb⟩ | ⟨p, r, hp, rfl⟩
  · rfl
  · obtain ⟨htake, hdrop⟩ := takeWhile_dropWhile b [] hb
    rw [List.append_nil] at htake hdrop
    have hlast : b.getLast? ≠ some 0x0A := fun h => hb (List.mem_of_getLast? h)
    rw [line, htake, hdrop, lineAt, behind, segments_of_not_mem b hb hne]
    simp [textOf, hlast, hne]
  · obtain ⟨htake, hdrop⟩ := takeWhile_dropWhile p (0x0A :: r) hp
    rw [line, htake, hdrop, lineAt, behind, segments_append_lf p r hp]
    simp [textOf, flatten_segments]

theorem behind_zero (b : Bytes) : behind b 0 = b := flatten_segments b

theorem segments_behind (b : Bytes) (k : Nat) : segments (behind b k) = (segments b).drop k := by
  have hone : ∀ c, segments (behind c 1) = (segments c).drop 1 := by
    intro c
    rcases eq_nil_or_line c with rfl | ⟨hne, hc⟩ | ⟨p, r, hp, rfl⟩
    · rfl
    · rw [behind, segments_of_not_mem c hc hne]
      rfl
    · rw [behind, segments_append_lf p r hp, List.drop_one, List.tail_cons, flatten_segments]
  induction k with
  | zero => rw [behind_zero, List.drop_zero]
  | succ k ih =>
    have hnext : behind b (k + 1) = behind (behind b k) 1 := by
      rw [behind, behind, ih, List.drop_drop]
    rw [hnext, hone, ih, List.drop_drop]

theorem behind_behind (b : Bytes) (j k : Nat) : behind (behind b j) k = behind b (j + k) := by
  rw [behind, segments_behind, List.drop_drop, behind]

theorem lineAt_behind (b : Bytes) (j k : Nat) : lineAt (behind b j) k = lineAt b (j + k) := by
  rw [lineAt, lineAt, segments_behind, List.getElem?_drop]

/-- **The reader gives the lines one after the other.** -/
theorem line_behind (b : Bytes) (k : Nat) : line (behind b k) = (lineAt b k, behind b (k + 1)) := by
  rw [line_eq, lineAt_behind, behind_behind, Nat.add_zero]

end Input

/-- READ of this type takes a line -/
def Ty.takesLine : Ty → Bool
  | .int | .bool | .string => true
  | .nil | .type => false

namespace Input

theorem read_behind (t : Ty) (b : Bytes) (k : Nat) (ht : t.takesLine = true) :
    read t (behind b k) = (valueOf t (lineAt b k), behind b (k + 1)) := by
  have hline := line_behind b k
  generalize lineAt b k = l at hline ⊢
  cases t with
  | int | bool | string =>
    rw [read, hline]
    cases l <;> rfl
  | nil | type => cases ht

/-- the other types leave the input alone -/
theorem read_of_not_takesLine (t : Ty) (b : Bytes) (ht : t.takesLine = false) :
    read t b = (.nil, b) := by
  cases t <;> first | rfl | cases ht

/-- the value that READ finds; for the other types it is nil whatever the line -/
theorem value_behind (t : Ty) (b : Bytes) (k : Nat) :
    (read t (behind b k)).1 = valueOf t (lineAt b k) := by
  cases ht : t.takesLine with
  | true => rw [read_behind t b k ht]
  | false =>
    rw [read_of_not_takesLine t _ ht]
    generalize lineAt b k = l
    cases t with
    | int | bool | string => cases ht
    | nil | type => cases l <;> rfl

end Input
end IPPcode24
