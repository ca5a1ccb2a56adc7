import IPPcode24.Proofs.Denotation
import Mathlib.Data.List.Forall2
import Mathlib.Data.Nat.Digits.Defs
import Mathlib.Tactic.IntervalCases

/-!
# Integers and their notations

An integer is written as at most one sign, at most one mark of a base, and one or more digits of the
base.  Zeros may lead, letters are of either case, and there is no limit to the number of digits.

* `signs`, `marks`            what may stand before the digits
* `IsDigit base c d`          the character is a digit of the base, with the value `d`
* `IntNotation t z`           the text is a notation of the integer
* `natOfDigits?_eq_some`      digits are read as what they stand for
* `intLiteral?_eq_bind`       the limit on the digits of an integer refuses none
* `intLiteral?_eq_some`       **a literal denotes the integer that its text is a notation of**
* `numeral mark base n`       the shortest notation of an integer with a given mark
* `intLiteral?_decimal`       a decimal text denotes its integer

Main statement, `Value.ofLiteral_int`.
-/

namespace IPPcode24

/-! ## notations -/

/-- the signs, and whether they negate -/
def signs : List (List Char × Bool) := [([], false), (['+'], false), (['-'], true)]

/-- the marks, and the bases that they announce -/
def marks : List (List Char × Nat) :=
  [([], 10), (['0', 'x'], 16), (['0', 'X'], 16), (['0', 'o'], 8), (['0', 'O'], 8)]

/-- digits above nine are letters -/
def IsDigit (base : Nat) (c : Char) (d : Nat) : Prop :=
  d < base ∧ (c = d.digitChar ∨ c = d.digitChar.toUpper)

inductive IntNotation : List Char → Int → Prop where
  | intro (sign mark text : List Char) (minus : Bool) (base : Nat) (ds : List Nat)
      (hsign : (sign, minus) ∈ signs) (hmark : (mark, base) ∈ marks)
      (hdigits : List.Forall₂ (IsDigit base) text ds) (hne : ds ≠ []) :
    IntNotation (sign ++ (mark ++ text)) (withSign minus (Nat.ofDigits base ds.reverse))

/-! ## digits -/

theorem toNat_sub_lt_of_isDigit (c : Char) (h : c.isDigit = true) : c.toNat - '0'.toNat < 10 := by
  obtain ⟨_, h9⟩ := Bool.and_eq_true_iff.mp h
  have h9 : c.toNat ≤ 57 := of_decide_eq_true h9
  have h0 : '0'.toNat = 48 := rfl
  omega

theorem eq_digitChar_of_isDigit (c : Char) (h : c.isDigit = true) :
    c = (c.toNat - '0'.toNat).digitChar := by
  have hge : 48 ≤ c.toNat := of_decide_eq_true (Bool.and_eq_true_iff.mp h).1
  have h0 : '0'.toNat = 48 := rfl
  apply Char.toNat_inj.mp
  rw [Nat.toNat_digitChar_of_lt_ten (toNat_sub_lt_of_isDigit c h)]
  omega

theorem isDigit_toDigits (n : Nat) : ∀ c ∈ Nat.toDigits 10 n, c.isDigit = true := fun _ hc =>
  Nat.isDigit_of_mem_toDigits (by decide) (by decide) hc

theorem le_sixteen_of_mark (mark : List Char) (base : Nat) (h : (mark, base) ∈ marks) :
    2 ≤ base ∧ base ≤ 16 := by
  have hall : ∀ m ∈ marks, 2 ≤ m.2 ∧ m.2 ≤ 16 := by decide
  exact hall _ h

theorem isDigit_of_digit? (base : Nat) (hb : base ≤ 16) (c : Char) (d : Nat)
    (h : digit? base c = some d) : IsDigit base c d := by
  have hlower : ∀ d < 16, 10 ≤ d → d.digitChar.toNat = 87 + d := by decide
  have hupper : ∀ d < 16, 10 ≤ d → d.digitChar.toUpper.toNat = 55 + d := by decide
  unfold digit? at h
  by_cases hc : c.isDigit = true
  · simp only [if_pos hc, Option.ite_none_right_eq_some, Option.some.injEq] at h
    obtain ⟨hlt, hd⟩ := h
    rw [← hd]
    exact ⟨hlt, .inl (eq_digitChar_of_isDigit c hc)⟩
  by_cases ha : 'a' ≤ c ∧ c ≤ 'z'
  · simp only [if_neg hc, if_pos ha, Option.ite_none_right_eq_some, Option.some.injEq] at h
    obtain ⟨hlt, hd⟩ := h
    have hge : 97 ≤ c.toNat := ha.1
    have hletter : 'a'.toNat = 97 := rfl
    refine ⟨hd ▸ hlt, .inl (Char.toNat_inj.mp ?_)⟩
    rw [hlower d (by omega) (by omega)]
    omega
  by_cases hA : 'A' ≤ c ∧ c ≤ 'Z'
  · simp only [if_neg hc, if_neg ha, if_pos hA, Option.ite_none_right_eq_some,
      Option.some.injEq] at h
    obtain ⟨hlt, hd⟩ := h
    have hge : 65 ≤ c.toNat := hA.1
    have hletter : 'A'.toNat = 65 := rfl
    refine ⟨hd ▸ hlt, .inr (Char.toNat_inj.mp ?_)⟩
    rw [hupper d (by omega) (by omega)]
    omega
  · simp only [if_neg hc, if_neg ha, if_neg hA, Nat.lt_irrefl, if_false] at h
    cases h

theorem digit?_digitChar (base d : Nat) (hd : d < 16) :
    digit? base d.digitChar = (if d < base then some d else none) ∧
      digit? base d.digitChar.toUpper = (if d < base then some d else none) := by
  interval_cases d <;> exact ⟨rfl, rfl⟩

theorem digit?_eq_some (base : Nat) (hb : base ≤ 16) (c : Char) (d : Nat) :
    digit? base c = some d ↔ IsDigit base c d := by
  refine ⟨isDigit_of_digit? base hb c d, ?_⟩
  intro h
  obtain ⟨hlower, hupper⟩ := digit?_digitChar base d (Nat.lt_of_lt_of_le h.1 hb)
  rcases h.2 with rfl | rfl
  · rw [hlower, if_pos h.1]
  · rw [hupper, if_pos h.1]

theorem mapM_digit?_eq_some (base : Nat) (hb : base ≤ 16) (s : List Char) : ∀ ds,
    s.mapM (digit? base) = some ds ↔ List.Forall₂ (IsDigit base) s ds := by
  induction s with
  | nil =>
    intro ds
    rw [List.mapM_nil, List.forall₂_nil_left_iff]
    exact ⟨fun h => (Option.some.inj h).symm, fun h => h ▸ rfl⟩
  | cons c s ih =>
    intro ds
    rw [List.mapM_cons, List.forall₂_cons_left_iff]
    show ((digit? base c).bind fun d => (s.mapM (digit? base)).bind fun ds => some (d :: ds)) = _ ↔
      _
    rw [Option.bind_eq_some_iff]
    refine exists_congr fun d => ?_
    rw [digit?_eq_some base hb, Option.bind_eq_some_iff]
    constructor
    · rintro ⟨hd, es, hes, h⟩
      exact ⟨es, hd, (ih es).mp hes, (Option.some.inj h).symm⟩
    · rintro ⟨es, hd, hes, rfl⟩
      exact ⟨hd, es, (ih es).mpr hes, rfl⟩

/-- digits from the left are those of the positional notation -/
theorem foldl_eq_ofDigits (base : Nat) (ds : List Nat) :
    ds.foldl (fun n d => n * base + d) 0 = Nat.ofDigits base ds.reverse := by
  rw [Nat.ofDigits_eq_foldr, List.foldr_reverse]
  congr 1
  funext n d
  rw [Nat.add_comm, Nat.mul_comm]
  rfl

theorem natOfDigits?_eq_some (base : Nat) (hb : base ≤ 16) (s : List Char) (n : Nat) :
    natOfDigits? base s = some n ↔ ∃ ds, List.Forall₂ (IsDigit base) s ds ∧ ds ≠ [] ∧
      n = Nat.ofDigits base ds.reverse := by
  rw [natOfDigits?]
  cases s with
  | nil =>
    constructor
    · intro h
      cases h
    · intro h
      obtain ⟨ds, hds, hne, _⟩ := h
      exact absurd (List.forall₂_nil_left_iff.mp hds) hne
  | cons c s =>
    rw [if_neg (by rw [List.isEmpty_cons]; exact Bool.false_ne_true), Option.map_eq_some_iff]
    refine exists_congr fun ds => ?_
    rw [mapM_digit?_eq_some base hb, foldl_eq_ofDigits, eq_comm (a := n)]
    refine and_congr_right fun hds => ?_
    have hne : ds ≠ [] := by
      rintro rfl
      cases hds
    exact (and_iff_right hne).symm

/-! ## signs and marks -/

/-- digits have no sign -/
theorem signed_of_isDigit (s : List Char) (h : ∀ c ∈ s, c.isDigit = true) :
    signed s = (false, s) := by
  unfold signed
  split
  · exact absurd (h '-' List.mem_cons_self) (by decide)
  · exact absurd (h '+' List.mem_cons_self) (by decide)
  · rfl

/-- and do not announce another base than ten -/
theorem radix_of_isDigit (s : List Char) (h : ∀ c ∈ s, c.isDigit = true) : radix s = (10, s) := by
  unfold radix
  split
  · exact absurd (h 'x' (by simp)) (by decide)
  · exact absurd (h 'X' (by simp)) (by decide)
  · exact absurd (h 'o' (by simp)) (by decide)
  · exact absurd (h 'O' (by simp)) (by decide)
  · rfl

theorem exists_sign (s : List Char) :
    ∃ sign, (sign, (signed s).1) ∈ signs ∧ s = sign ++ (signed s).2 := by
  unfold signed
  split
  · exact ⟨['-'], by simp [signs], rfl⟩
  · exact ⟨['+'], by simp [signs], rfl⟩
  · exact ⟨[], by simp [signs], rfl⟩

theorem exists_mark (s : List Char) :
    ∃ mark, (mark, (radix s).1) ∈ marks ∧ s = mark ++ (radix s).2 := by
  unfold radix
  split
  · exact ⟨['0', 'x'], by simp [marks], rfl⟩
  · exact ⟨['0', 'X'], by simp [marks], rfl⟩
  · exact ⟨['0', 'o'], by simp [marks], rfl⟩
  · exact ⟨['0', 'O'], by simp [marks], rfl⟩
  · exact ⟨[], by simp [marks], rfl⟩

theorem isDigit_of_ten (c : Char) (d : Nat) (h : IsDigit 10 c d) : c.isDigit = true := by
  have hall : ∀ d < 10, d.digitChar.isDigit = true ∧ d.digitChar.toUpper.isDigit = true := by decide
  obtain ⟨hlower, hupper⟩ := hall d h.1
  rcases h.2 with rfl | rfl
  · exact hlower
  · exact hupper

theorem forall_isDigit (text : List Char) (ds : List Nat)
    (h : List.Forall₂ (IsDigit 10) text ds) : ∀ c ∈ text, c.isDigit = true := by
  induction h with
  | nil => exact List.forall_mem_nil _
  | cons hc _ ih => exact List.forall_mem_cons.mpr ⟨isDigit_of_ten _ _ hc, ih⟩

section
variable (mark text : List Char) (base : Nat) (ds : List Nat) (hmark : (mark, base) ∈ marks)
  (hdigits : List.Forall₂ (IsDigit base) text ds)
include hmark hdigits

/-- what follows a mark is no second one, and digits of base ten are none either -/
theorem radix_append : radix (mark ++ text) = (base, text) := by
  simp only [marks, List.mem_cons, Prod.mk.injEq, List.not_mem_nil, or_false] at hmark
  rcases hmark with ⟨rfl, rfl⟩ | ⟨rfl, rfl⟩ | ⟨rfl, rfl⟩ | ⟨rfl, rfl⟩ | ⟨rfl, rfl⟩
  · exact radix_of_isDigit text (forall_isDigit text ds hdigits)
  all_goals rfl

/-- neither a mark nor a digit is a sign -/
theorem signed_append (sign : List Char) (minus : Bool) (hsign : (sign, minus) ∈ signs) :
    signed (sign ++ (mark ++ text)) = (minus, mark ++ text) := by
  have hbody : signed (mark ++ text) = (false, mark ++ text) := by
    simp only [marks, List.mem_cons, Prod.mk.injEq, List.not_mem_nil, or_false] at hmark
    rcases hmark with ⟨rfl, rfl⟩ | ⟨rfl, _⟩ | ⟨rfl, _⟩ | ⟨rfl, _⟩ | ⟨rfl, _⟩
    · exact signed_of_isDigit text (forall_isDigit text ds hdigits)
    all_goals rfl
  simp only [signs, List.mem_cons, Prod.mk.injEq, List.not_mem_nil, or_false] at hsign
  rcases hsign with ⟨rfl, rfl⟩ | ⟨rfl, rfl⟩ | ⟨rfl, rfl⟩
  · exact hbody
  all_goals rfl

end

/-! ## from a notation to the integer -/

theorem radix_pos (s : List Char) : 0 < (radix s).1 := by
  unfold radix
  split
  all_goals exact Nat.succ_pos _

/-- what the digits may not come to is out of range with either sign -/
theorem int64?_withSign_of_gt (minus : Bool) (n : Nat) (h : ¬ n ≤ maxMagnitude) :
    int64? (withSign minus n) = none := by
  have hn : 2 ^ 127 ≤ n := Nat.lt_of_not_le h
  have hmin : Int64.minValue.toInt = -2 ^ 63 := rfl
  have hmax : Int64.maxValue.toInt = 2 ^ 63 - 1 := rfl
  rw [int64?, hmin, hmax, if_neg]
  cases minus with
  | true => show ¬ (-2 ^ 63 ≤ -(n : Int) ∧ -(n : Int) ≤ 2 ^ 63 - 1); omega
  | false => show ¬ (-2 ^ 63 ≤ (n : Int) ∧ (n : Int) ≤ 2 ^ 63 - 1); omega

/-- **The limit on the digits refuses no integer** that the range of 64 bits would take. -/
theorem intLiteral?_eq_bind (s : List Char) :
    intLiteral? s = (natOfDigits? (radix (signed s).2).1 (radix (signed s).2).2).bind fun n =>
      int64? (withSign (signed s).1 n) := by
  rw [intLiteral?, natWithin?_eq _ _ (radix_pos (signed s).2)]
  cases natOfDigits? (radix (signed s).2).1 (radix (signed s).2).2 with
  | none => rfl
  | some n =>
    rw [Option.filter_some, Option.bind_some]
    by_cases hn : n ≤ maxMagnitude
    · rw [if_pos (decide_eq_true hn), Option.bind_some]
    · rw [if_neg (by rwa [decide_eq_true_eq]), int64?_withSign_of_gt _ n hn]
      rfl

/-- **The parts that a literal is read by are those of its notation.** -/
theorem intNotation_iff (t : List Char) (z : Int) :
    IntNotation t z ↔ ∃ n, natOfDigits? (radix (signed t).2).1 (radix (signed t).2).2 = some n ∧
      z = withSign (signed t).1 n := by
  constructor
  · intro h
    cases h with
    | intro sign mark text minus base ds hsign hmark hdigits hne =>
      have hbase := (le_sixteen_of_mark mark base hmark).2
      rw [signed_append mark text base ds hmark hdigits sign minus hsign,
        radix_append mark text base ds hmark hdigits]
      exact ⟨_, (natOfDigits?_eq_some base hbase text _).mpr ⟨ds, hdigits, hne, rfl⟩, rfl⟩
  · intro h
    obtain ⟨n, hn, rfl⟩ := h
    obtain ⟨sign, hsign, ht⟩ := exists_sign t
    obtain ⟨mark, hmark, hbody⟩ := exists_mark (signed t).2
    have hbase := (le_sixteen_of_mark mark _ hmark).2
    obtain ⟨ds, hdigits, hne, rfl⟩ := (natOfDigits?_eq_some _ hbase _ n).mp hn
    have hnotation := IntNotation.intro sign mark _ _ _ ds hsign hmark hdigits hne
    rwa [← hbody, ← ht] at hnotation

/-- a text is a notation of one integer at most -/
theorem IntNotation.unique (t : List Char) (z z' : Int) (h : IntNotation t z)
    (h' : IntNotation t z') : z = z' := by
  obtain ⟨n, hn, rfl⟩ := (intNotation_iff t z).mp h
  obtain ⟨n', hn', rfl⟩ := (intNotation_iff t z').mp h'
  rw [Option.some.inj (hn.symm.trans hn')]

/-- **A literal denotes the integer that its text is a notation of.** -/
theorem intLiteral?_eq_some (t : List Char) (n : Int64) :
    intLiteral? t = some n ↔ IntNotation t n.toInt := by
  rw [intLiteral?_eq_bind, intNotation_iff, Option.bind_eq_some_iff]
  refine exists_congr fun k => and_congr_right fun _ => ?_
  constructor
  · intro h
    exact toInt_of_int64? _ n h
  · intro h
    rw [← h]
    exact int64?_toInt n

/-- the digits come to so little that they and their negation have 128 bits -/
theorem withSign_bounds (minus : Bool) (base : Nat) (hb : 0 < base) (s : List Char) (n : Nat)
    (h : natWithin? maxMagnitude base s = some n) :
    -2 ^ 127 ≤ withSign minus n ∧ withSign minus n < 2 ^ 127 := by
  rw [natWithin?_eq _ _ hb, Option.filter_eq_some_iff, decide_eq_true_eq] at h
  have hn : n < 2 ^ 127 := Nat.lt_of_le_of_lt h.2 (by decide)
  cases minus with
  | true => show -2 ^ 127 ≤ -(n : Int) ∧ -(n : Int) < 2 ^ 127; omega
  | false => show -2 ^ 127 ≤ (n : Int) ∧ (n : Int) < 2 ^ 127; omega

/-! ## from an integer to a notation -/

def numeral (mark : List Char) (base : Nat) (z : Int) : List Char :=
  (if z < 0 then ['-'] else []) ++ (mark ++ Nat.toDigits base z.natAbs)

theorem numeral_decimal (z : Int) : numeral [] 10 z = decimal z := by
  cases z with
  | ofNat n =>
    have hn : ¬ Int.ofNat n < 0 := Int.not_lt.mpr (Int.natCast_nonneg n)
    rw [numeral, if_neg hn]
    rfl
  | negSucc n =>
    rw [numeral, if_pos (Int.negSucc_lt_zero n)]
    rfl

theorem exists_digits (base : Nat) (hb : 2 ≤ base) (n : Nat) :
    ∃ ds, List.Forall₂ (IsDigit base) (Nat.toDigits base n) ds ∧ ds ≠ [] ∧
      Nat.ofDigits base ds.reverse = n := by
  induction n using Nat.strongRecOn with
  | ind n ih =>
    rw [Nat.toDigits_eq_if hb]
    by_cases hn : n < base
    · rw [if_pos hn]
      refine ⟨[n], .cons ⟨hn, .inl rfl⟩ .nil, List.cons_ne_nil n [], ?_⟩
      exact Nat.ofDigits_singleton
    · -- the last digit is the remainder, and the others are those of the quotient
      rw [if_neg hn]
      obtain ⟨ds, hds, _, hval⟩ := ih (n / base) (Nat.div_lt_self (by omega) hb)
      have hlast : IsDigit base (n % base).digitChar (n % base) :=
        ⟨Nat.mod_lt n (by omega), .inl rfl⟩
      refine ⟨ds ++ [n % base], List.rel_append hds (.cons hlast .nil), by simp, ?_⟩
      rw [List.reverse_append, List.reverse_singleton, List.singleton_append, Nat.ofDigits_cons,
        hval]
      exact Nat.mod_add_div n base

theorem intNotation_numeral (mark : List Char) (base : Nat) (hmark : (mark, base) ∈ marks)
    (z : Int) : IntNotation (numeral mark base z) z := by
  obtain ⟨ds, hds, hne, hval⟩ := exists_digits base (le_sixteen_of_mark mark base hmark).1 z.natAbs
  unfold numeral
  by_cases hz : z < 0
  · have hnotation := IntNotation.intro ['-'] mark _ true base ds (by simp [signs]) hmark hds hne
    rw [hval] at hnotation
    rw [if_pos hz]
    have hsign : withSign true z.natAbs = z := by show -(z.natAbs : Int) = z; omega
    rwa [hsign] at hnotation
  · have hnotation := IntNotation.intro [] mark _ false base ds (by simp [signs]) hmark hds hne
    rw [hval] at hnotation
    rw [if_neg hz]
    have hsign : withSign false z.natAbs = z := by show (z.natAbs : Int) = z; omega
    rwa [hsign] at hnotation

theorem intLiteral?_numeral (mark : List Char) (base : Nat) (hmark : (mark, base) ∈ marks)
    (n : Int64) : intLiteral? (numeral mark base n.toInt) = some n :=
  (intLiteral?_eq_some _ n).mpr (intNotation_numeral mark base hmark n.toInt)

/-- **The decimal text of an integer denotes it.** -/
theorem intLiteral?_decimal (n : Int64) : intLiteral? (decimal n.toInt) = some n := by
  rw [← numeral_decimal]
  exact intLiteral?_numeral [] 10 (by simp [marks]) n

/-! ## literals -/

namespace Value

theorem ofLiteral_int_eq_ok (t : List Char) (n : Int64) :
    ofLiteral "int".toList t = .ok (.int n) ↔ intLiteral? t = some n := by
  refine (ofLiteral_name_eq_ok .int t _).trans (Option.map_eq_some_iff.trans ?_)
  constructor
  · intro h
    obtain ⟨k, hk, hn⟩ := h
    cases hn
    exact hk
  · intro h
    exact ⟨n, h, rfl⟩

/-- **Integer literals are accepted by their notation and range.**  A text denotes an integer if it
is a notation of it and the integer has 64 bits; no text is a notation of two; and every other text
is refused.  What is read of the digits before the sign and the range count has 128 bits with either
sign, and to bound it refuses nothing that the range would not.  Every integer of 64 bits, the
smallest too, is read back from its decimal text and from a notation with any mark. -/
theorem ofLiteral_int (t : List Char) :
    (∀ n, ofLiteral "int".toList t = .ok (.int n) ↔
      ∃ z, IntNotation t z ∧ -2 ^ 63 ≤ z ∧ z ≤ 2 ^ 63 - 1 ∧ n.toInt = z) ∧
    ((∀ z, IntNotation t z → ¬ (-2 ^ 63 ≤ z ∧ z ≤ 2 ^ 63 - 1)) →
      ofLiteral "int".toList t = .error (.invalidLiteral .int (String.ofList t))) ∧
    (∀ z z', IntNotation t z → IntNotation t z' → z = z') ∧
    (∀ minus digits, signed t = (minus, digits) →
      (∀ n, natWithin? maxMagnitude (radix digits).1 (radix digits).2 = some n →
        -2 ^ 127 ≤ withSign minus n ∧ withSign minus n < 2 ^ 127) ∧
      intLiteral? t = (natOfDigits? (radix digits).1 (radix digits).2).bind fun n =>
        int64? (withSign minus n)) ∧
    (∀ n : Int64, ofLiteral "int".toList (decimal n.toInt) = .ok (.int n)) ∧
    (∀ mark base, (mark, base) ∈ marks → ∀ n : Int64,
      ofLiteral "int".toList (numeral mark base n.toInt) = .ok (.int n)) := by
  refine ⟨fun n => ?_, fun hno => ?_, IntNotation.unique t, fun minus digits hs => ⟨?_, ?_⟩,
    fun n => ?_, fun mark base hmark n => ?_⟩
  · rw [ofLiteral_int_eq_ok, intLiteral?_eq_some]
    constructor
    · intro h
      exact ⟨n.toInt, h, n.minValue_le_toInt, n.toInt_le, rfl⟩
    · intro h
      obtain ⟨z, hz, _, _, rfl⟩ := h
      exact hz
  · refine ofLiteral_name_of_none .int t ?_
    cases hn : intLiteral? t with
    | none => exact Option.map_eq_none_iff.mpr hn
    | some n =>
      have hnotation := (intLiteral?_eq_some t n).mp hn
      exact absurd ⟨n.minValue_le_toInt, n.toInt_le⟩ (hno n.toInt hnotation)
  · exact withSign_bounds minus _ (radix_pos digits) _
  · rw [intLiteral?_eq_bind, hs]
  · exact (ofLiteral_int_eq_ok _ n).mpr (intLiteral?_decimal n)
  · exact (ofLiteral_int_eq_ok _ n).mpr (intLiteral?_numeral mark base hmark n)

/-- the smallest integer with zeros before it, and its negation, which is out of range -/
theorem ofLiteral_int_min :
    ofLiteral "int".toList "-0X008000000000000000".toList = .ok (.int Int64.minValue) ∧
    ofLiteral "int".toList "0o1000000000000000000000".toList
      = .error (.invalidLiteral .int "0o1000000000000000000000") := by
  have hmin : IntNotation "-0X008000000000000000".toList (-2 ^ 63) :=
    (intNotation_iff _ _).mpr ⟨2 ^ 63, by decide, by decide⟩
  have hmax : IntNotation "0o1000000000000000000000".toList (2 ^ 63) :=
    (intNotation_iff _ _).mpr ⟨2 ^ 63, by decide, by decide⟩
  constructor
  · exact ((ofLiteral_int _).1 _).mpr ⟨-2 ^ 63, hmin, by decide, by decide, by decide⟩
  · refine (ofLiteral_int _).2.1 fun z hz => ?_
    rw [IntNotation.unique _ z _ hz hmax]
    decide

end Value
end IPPcode24
