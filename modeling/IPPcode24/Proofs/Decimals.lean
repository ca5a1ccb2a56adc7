import IPPcode24.Proofs.ReadBack

/-!
# Integers on a line of input

The integer that READ finds on a line is the one that the same text denotes as a literal.  The two
readers differ in one thing: a line of input has decimal digits only, and a mark of another base is
refused there.

* `IsMarked s`                   the text begins with the mark of a base
* `radix_of_not_isMarked`        digits without a mark are decimal
* `natOfDigits?_ten`             decimal digits are read as the number that they stand for
* `Input.decimal?_eq_bind`       a decimal text is read by its sign and its digits
* `Input.decimal?_eq_some`       **the decimal texts are the literals without a mark**

Main statement, `Input.decimals_agree`.
-/

namespace IPPcode24

/-! ## marks -/

def IsMarked (s : List Char) : Prop := ∃ m ∈ marks, m.1 ≠ [] ∧ m.1 <+: s

instance (s : List Char) : Decidable (IsMarked s) :=
  inferInstanceAs (Decidable (∃ m ∈ marks, m.1 ≠ [] ∧ m.1 <+: s))

/-- each mark has a letter in it, so what begins with one is not made of digits -/
theorem all_isDigit_of_isMarked (s : List Char) (h : IsMarked s) : s.all Char.isDigit = false := by
  have hmarks : ∀ m ∈ marks, m.1 ≠ [] → m.1.all Char.isDigit = false := by decide
  obtain ⟨m, hm, hne, hstart⟩ := h
  obtain ⟨c, hc, hletter⟩ := List.all_eq_false.mp (hmarks m hm hne)
  exact List.all_eq_false.mpr ⟨c, hstart.subset hc, hletter⟩

theorem radix_of_not_isMarked (s : List Char) (h : ¬ IsMarked s) : radix s = (10, s) := by
  have hno : ∀ m ∈ marks, m.1 ≠ [] → ∀ r, s ≠ m.1 ++ r := by
    rintro m hm hne r rfl
    exact h ⟨m, hm, hne, List.prefix_append m.1 r⟩
  unfold radix
  split
  · exact absurd rfl (hno (['0', 'x'], 16) (by decide) (by decide) _)
  · exact absurd rfl (hno (['0', 'X'], 16) (by decide) (by decide) _)
  · exact absurd rfl (hno (['0', 'o'], 8) (by decide) (by decide) _)
  · exact absurd rfl (hno (['0', 'O'], 8) (by decide) (by decide) _)
  · rfl

/-! ## decimal digits -/

theorem digit?_ten (c : Char) :
    digit? 10 c = if c.isDigit then some (c.toNat - '0'.toNat) else none := by
  by_cases hc : c.isDigit = true
  · rw [if_pos hc, digit?, if_pos hc, if_pos (toNat_sub_lt_of_isDigit c hc)]
  · rw [if_neg hc]
    cases hd : digit? 10 c with
    | none => rfl
    | some d =>
      have hdigit := isDigit_of_ten c d ((digit?_eq_some 10 (by decide) c d).mp hd)
      exact absurd hdigit hc

theorem mapM_digit?_ten (s : List Char) : s.mapM (digit? 10)
    = if s.all Char.isDigit then some (s.map fun c => c.toNat - '0'.toNat) else none := by
  induction s with
  | nil => rfl
  | cons c s ih =>
    rw [List.mapM_cons, List.all_cons, digit?_ten, ih]
    cases c.isDigit with
    | false => rfl
    | true => cases s.all Char.isDigit <;> rfl

theorem foldl_eq_ofDigitChars (s : List Char) (n : Nat) :
    (s.map fun c => c.toNat - '0'.toNat).foldl (fun n d => n * 10 + d) n
      = Nat.ofDigitChars 10 s n := by
  rw [List.foldl_map, Nat.ofDigitChars_eq_foldl]
  simp only [Nat.mul_comm]

/-- decimal digits are read as the number that they stand for -/
theorem natOfDigits?_ten (s : List Char) : natOfDigits? 10 s
    = if s.isEmpty || !s.all Char.isDigit then none else some (Nat.ofDigitChars 10 s 0) := by
  rw [natOfDigits?, mapM_digit?_ten, ← foldl_eq_ofDigitChars]
  cases s.isEmpty with
  | true => rfl
  | false => cases s.all Char.isDigit <;> rfl

namespace Input

/-! ## decimal texts -/

/-- a decimal text is read by its sign and its digits -/
theorem decimal?_eq_bind (t : List Char) :
    decimal? t = (natOfDigits? 10 (signed t).2).bind fun n => int64? (withSign (signed t).1 n) := by
  rw [decimal?, natOfDigits?_ten]
  split <;> rfl

theorem decimal?_of_isMarked (t : List Char) (h : IsMarked (signed t).2) : decimal? t = none := by
  rw [decimal?, all_isDigit_of_isMarked _ h, Bool.not_false, Bool.or_true, if_pos rfl]

/-- **The decimal texts are the literals without a mark**, and they denote the same integers. -/
theorem decimal?_eq_some (t : List Char) (n : Int64) :
    decimal? t = some n ↔ intLiteral? t = some n ∧ ¬ IsMarked (signed t).2 := by
  by_cases hm : IsMarked (signed t).2
  · rw [decimal?_of_isMarked t hm]
    exact ⟨fun h => (nomatch h), fun h => absurd hm h.2⟩
  · rw [decimal?_eq_bind, intLiteral?_eq_bind, radix_of_not_isMarked _ hm]
    exact (and_iff_left hm).symm

/-! ## lines -/

theorem interpret_int_eq (s : List Char) (n : Int64) :
    interpret .int s = .int n ↔ decimal? (trim s) = some n := by
  rw [interpret]
  cases decimal? (trim s) with
  | none => simp
  | some k => rw [Value.int.injEq, Option.some.injEq]

theorem interpret_int_eq_nil (s : List Char) :
    interpret .int s = .nil ↔ ∀ n, decimal? (trim s) ≠ some n := by
  rw [interpret]
  cases decimal? (trim s) with
  | none => simp
  | some k => simp

/-- **READ finds the integer that the line denotes as a literal, unless a base is announced.**  What
counts of the line is its text without the white space around it.  READ finds an integer there if and
only if the text denotes this integer as a literal and has no mark of a base behind its sign; so the
two never find different ones, and where a literal is found and READ finds nothing there is a
mark. -/
theorem decimals_agree (b : Bytes) (s : List Char) (rest : Bytes) (h : line b = (some s, rest)) :
    let literal := Value.ofLiteral "int".toList (trim s)
    let marked := IsMarked (signed (trim s)).2
    (∀ n, read .int b = (.int n, rest) ↔ literal = .ok (.int n) ∧ ¬ marked) ∧
    (read .int b = (.nil, rest) ↔ (∀ n, literal ≠ .ok (.int n)) ∨ marked) ∧
    (∀ n k, read .int b = (.int n, rest) → literal = .ok (.int k) → n = k) ∧
    ((∃ n, literal = .ok (.int n)) → read .int b = (.nil, rest) → marked) := by
  intro literal marked
  have hread : read .int b = (interpret .int s, rest) := read_of_line .int b rest s rfl h
  have hint : ∀ n, read .int b = (.int n, rest) ↔ literal = .ok (.int n) ∧ ¬ marked := by
    intro n
    rw [hread, Prod.mk.injEq, and_iff_left rfl, interpret_int_eq, decimal?_eq_some,
      ← Value.ofLiteral_int_eq_ok]
  have hnil : read .int b = (.nil, rest) ↔ (∀ n, literal ≠ .ok (.int n)) ∨ marked := by
    rw [hread, Prod.mk.injEq, and_iff_left rfl, interpret_int_eq_nil]
    simp only [ne_eq, decimal?_eq_some, ← Value.ofLiteral_int_eq_ok, not_and, not_not]
    by_cases hm : marked
    · exact ⟨fun _ => .inr hm, fun _ _ _ => hm⟩
    · rw [or_iff_left hm]
      exact forall_congr' fun n => ⟨fun himp hn => hm (himp hn), fun hno hn => absurd hn hno⟩
  refine ⟨hint, hnil, fun n k hn hk => ?_, fun hliteral hno => ?_⟩
  · have hsame := ((hint n).mp hn).1.symm.trans hk
    cases hsame
    rfl
  · obtain ⟨n, hn⟩ := hliteral
    exact (hnil.mp hno).resolve_left fun hnone => hnone n hn

/-- the greatest integer with white space around it and zeros before it, and a text with a mark -/
theorem decimals_agree_marked :
    let b := utf8 "\t+009223372036854775807 \r".toList ++ 0x0A :: utf8 "-0x10".toList
    read .int b = (.int Int64.maxValue, utf8 "-0x10".toList) ∧
      Value.ofLiteral "int".toList "-0x10".toList = .ok (.int (-16)) ∧
      read .int (utf8 "-0x10".toList) = (.nil, []) := by
  intro b
  have hmax : line b = (some "\t+009223372036854775807 ".toList, utf8 "-0x10".toList) := by
    decide +kernel
  have hmarked : line (utf8 "-0x10".toList) = (some "-0x10".toList, []) := by decide +kernel
  refine ⟨?_, by decide +kernel, ?_⟩
  · exact ((decimals_agree b _ _ hmax).1 _).mpr ⟨by decide +kernel, by decide +kernel⟩
  · exact (decimals_agree _ _ _ hmarked).2.1.mpr (.inr (by decide +kernel))

end Input
end IPPcode24
