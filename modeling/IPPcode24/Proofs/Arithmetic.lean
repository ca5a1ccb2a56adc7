import IPPcode24.Proofs.Evaluation
import Mathlib.Data.Int.ModEq

/-!
# Integers

ADD, SUB and MUL store what is left of the exact result modulo 2^64, so that they obey the laws of a
ring from one instruction to the next, whether an intermediate result fits or not.  IDIV cuts the
exact quotient toward zero, and there is one quotient that does not fit.

* `Wraps k n`                    `n` is the one integer of 64 bits that is congruent to `k`
* `Binary.wraps_add`, `wraps_sub`, `wraps_mul`   what is stored is the exact result wrapped around
* `toInt_idiv`, `toInt_idiv_overflow`   the quotient, and the one that does not fit
* `exists_remainder`             what the quotient leaves
* `Machine.divisionByZero_iff`   when IDIV fails for its divisor

Main statement, `integers_wrap`.
-/

namespace IPPcode24

/-! ## wrapping around -/

/-- `n` is the one integer of 64 bits that is congruent to `k` modulo 2^64 -/
def Wraps (k : Int) (n : Int64) : Prop :=
  ∀ j : Int, -2 ^ 63 ≤ j ∧ j ≤ 2 ^ 63 - 1 ∧ j ≡ k [ZMOD 2 ^ 64] ↔ j = n.toInt

theorem wraps_of_bmod (k : Int) (n : Int64) (h : n.toInt = k.bmod (2 ^ 64)) : Wraps k n := by
  intro j
  constructor
  · rintro ⟨hlo, hhi, hmod⟩
    have hj : j.bmod (2 ^ 64) = j := Int.bmod_eq_of_le (by omega) (by omega)
    have hmod : j % ((2 ^ 64 : Nat) : Int) = k % ((2 ^ 64 : Nat) : Int) := hmod
    rw [h, ← Int.emod_bmod k, ← hmod, Int.emod_bmod, hj]
  · rintro rfl
    have hlo := n.le_toInt
    have hhi := n.toInt_lt
    refine ⟨hlo, by omega, ?_⟩
    rw [h]
    exact Int.bmod_emod

theorem Wraps.modEq (k : Int) (n : Int64) (h : Wraps k n) : n.toInt ≡ k [ZMOD 2 ^ 64] :=
  ((h n.toInt).mpr rfl).2.2

/-! ## the opcodes -/

namespace Binary

/-- the opcode stores `n` for the integers `a` and `b`, wherever the instruction stands -/
def Gives (f : Binary) (a b n : Int64) : Prop := f.Yields (.int a) (.int b) (.ok (.int n))

section
variable (a b c n : Int64)

theorem gives_iff (f : Binary) (k : Int64) (hf : f.apply (.int a) (.int b) = .ok (.int k)) :
    f.Gives a b n ↔ k = n := by
  rw [Gives, yields_iff, hf, Except.ok.injEq, Value.int.injEq]

theorem gives_add_iff : Gives .add a b n ↔ a + b = n := gives_iff a b n .add _ rfl
theorem gives_sub_iff : Gives .sub a b n ↔ a - b = n := gives_iff a b n .sub _ rfl
theorem gives_mul_iff : Gives .mul a b n ↔ a * b = n := gives_iff a b n .mul _ rfl

theorem gives_idiv (hb : b ≠ 0) : Gives .idiv a b (a / b) :=
  (gives_iff a b _ .idiv (a / b) (if_neg hb)).mpr rfl

theorem wraps_add : ∃ n, Gives .add a b n ∧ Wraps (a.toInt + b.toInt) n :=
  ⟨a + b, (gives_add_iff a b _).mpr rfl, wraps_of_bmod _ _ (Int64.toInt_add a b)⟩

theorem wraps_sub : ∃ n, Gives .sub a b n ∧ Wraps (a.toInt - b.toInt) n :=
  ⟨a - b, (gives_sub_iff a b _).mpr rfl, wraps_of_bmod _ _ (Int64.toInt_sub a b)⟩

theorem wraps_mul : ∃ n, Gives .mul a b n ∧ Wraps (a.toInt * b.toInt) n :=
  ⟨a * b, (gives_mul_iff a b _).mpr rfl, wraps_of_bmod _ _ (Int64.toInt_mul a b)⟩

/-! ### laws -/

theorem gives_comm (f : Binary) (hf : f ∈ [Binary.add, .mul]) : f.Gives a b n ↔ f.Gives b a n := by
  obtain rfl | hf := List.mem_cons.mp hf
  · rw [gives_add_iff, gives_add_iff, Int64.add_comm]
  · rw [List.mem_singleton.mp hf, gives_mul_iff, gives_mul_iff, Int64.mul_comm]

theorem gives_assoc (f : Binary) (hf : f ∈ [Binary.add, .mul]) (p q : Int64) (hp : f.Gives a b p)
    (hq : f.Gives b c q) : f.Gives p c n ↔ f.Gives a q n := by
  obtain rfl | hf := List.mem_cons.mp hf
  · rw [gives_add_iff] at hp hq
    rw [gives_add_iff, gives_add_iff, ← hp, ← hq, Int64.add_assoc]
  · obtain rfl := List.mem_singleton.mp hf
    rw [gives_mul_iff] at hp hq
    rw [gives_mul_iff, gives_mul_iff, ← hp, ← hq, Int64.mul_assoc]

theorem gives_distrib (p q r : Int64) (hp : Gives .add b c p) (hq : Gives .mul a b q)
    (hr : Gives .mul a c r) : Gives .mul a p n ↔ Gives .add q r n := by
  rw [gives_add_iff] at hp
  rw [gives_mul_iff] at hq hr
  rw [gives_mul_iff, gives_add_iff, ← hp, ← hq, ← hr, Int64.mul_add]

theorem gives_sub_of_add (h : Gives .add a b n) : Gives .sub n b a := by
  rw [gives_add_iff] at h
  rw [gives_sub_iff, ← h, Int64.add_sub_cancel]

end
end Binary

/-! ## division -/

section
variable (a b : Int64)

/-- the quotient is the exact one, cut toward zero, if that fits -/
theorem toInt_idiv (h : ¬(a.toInt = -2 ^ 63 ∧ b.toInt = -1)) :
    (a / b).toInt = a.toInt.tdiv b.toInt := by
  by_cases ha : a = Int64.minValue
  · refine Int64.toInt_div_of_ne_right a b fun hb => h ?_
    rw [ha, hb]
    decide
  · exact Int64.toInt_div_of_ne_left a b ha

/-- the one that does not fit is 2^63 -/
theorem toInt_idiv_overflow (ha : a.toInt = -2 ^ 63) (hb : b.toInt = -1) :
    (a / b).toInt = -2 ^ 63 := by
  rw [Int64.toInt_div, ha, hb]
  decide

/-- what the quotient leaves is smaller than the divisor, and has the sign of the dividend -/
theorem exists_remainder (hb : b ≠ 0) :
    ∃ r : Int, a.toInt ≡ (a / b).toInt * b.toInt + r [ZMOD 2 ^ 64] ∧
      r.natAbs < b.toInt.natAbs ∧ (r = 0 ∨ r.sign = a.toInt.sign) := by
  refine ⟨a.toInt.tmod b.toInt, ?_, ?_, ?_⟩
  · have hquot : (a / b).toInt ≡ a.toInt.tdiv b.toInt [ZMOD 2 ^ 64] :=
      (wraps_of_bmod _ _ (Int64.toInt_div a b)).modEq
    have hexact := (hquot.mul_right b.toInt).add_right (a.toInt.tmod b.toInt)
    rw [Int.tdiv_mul_add_tmod] at hexact
    exact hexact.symm
  · rw [Int.natAbs_tmod]
    refine Nat.mod_lt _ (Int.natAbs_pos.mpr fun hzero => hb ?_)
    rw [← Int64.toInt_inj, hzero, Int64.toInt_zero]
  · rw [Int.sign_tmod]
    split
    · next hdvd => exact .inl (Int.tmod_eq_zero_of_dvd hdvd)
    · exact .inr rfl

end

theorem idiv_eq_divisionByZero (x y : Value) :
    Binary.idiv.apply x y = .error .divisionByZero ↔ ∃ n, x = .int n ∧ y = .int 0 := by
  constructor
  · intro h
    unfold Binary.apply at h
    split at h
    case h_4 n b hidiv =>
      split at h
      · next hb => exact ⟨n, rfl, by rw [hb]⟩
      · cases h
    all_goals first | cases ‹Binary.idiv = _› | cases h
  · rintro ⟨n, rfl, rfl⟩
    rfl

/-- the divisor is at fault only where both symbols have values -/
theorem Machine.divisionByZero_iff (m : Machine) (s : State) (order : Nat) (dst : Var)
    (a b : Symbol) (hd : s.memory.frames.Declared dst.frame.place dst.name) :
    (∃ s', m.outcome s order (.binary .idiv dst a b) = .error .divisionByZero s') ↔
      ∃ n, s.memory.value a = .ok (.int n) ∧ s.memory.value b = .ok (.int 0) := by
  simp only [outcome_binary_error_iff m s order dst a b .idiv hd, exists_and_left,
    exists_eq, and_true]
  cases ha : s.memory.value a with
  | error c =>
    obtain ⟨e, rfl⟩ := s.memory.access_of_value_error a c ha
    rw [Memory.combine, ha]
    constructor
    · intro h
      cases h
    · rintro ⟨_, h, _⟩
      cases h
  | ok x =>
    cases hb : s.memory.value b with
    | error c =>
      obtain ⟨e, rfl⟩ := s.memory.access_of_value_error b c hb
      rw [Memory.combine, ha, hb]
      constructor
      · intro h
        cases h
      · rintro ⟨_, _, h⟩
        cases h
    | ok y =>
      rw [s.memory.combine_of_values a b .idiv x y ha hb, idiv_eq_divisionByZero]
      simp only [Except.ok.injEq]

/-- **Integers wrap around, and division is total but for a divisor of zero.**  ADD, SUB and MUL
store the one integer of 64 bits that is congruent to the exact result modulo 2^64.  So ADD and MUL
commute and associate, MUL distributes over ADD, and SUB undoes ADD, wherever the instructions stand
and whatever fits.  IDIV fails with a division by zero exactly if its sources are two integers of
which the second is zero.  Otherwise it stores the exact quotient cut toward zero, or -2^63 for the
one that does not fit.  What the quotient leaves of the dividend, modulo 2^64, is smaller than the
divisor and is zero or has the sign of the dividend. -/
theorem integers_wrap :
    (∀ a b, (∃ n, Binary.Gives .add a b n ∧ Wraps (a.toInt + b.toInt) n) ∧
      (∃ n, Binary.Gives .sub a b n ∧ Wraps (a.toInt - b.toInt) n) ∧
      ∃ n, Binary.Gives .mul a b n ∧ Wraps (a.toInt * b.toInt) n) ∧
    (∀ f ∈ [Binary.add, .mul], ∀ a b n, f.Gives a b n ↔ f.Gives b a n) ∧
    (∀ f ∈ [Binary.add, .mul], ∀ a b c p q n, f.Gives a b p → f.Gives b c q →
      (f.Gives p c n ↔ f.Gives a q n)) ∧
    (∀ a b c p q r n, Binary.Gives .add b c p → Binary.Gives .mul a b q →
      Binary.Gives .mul a c r → (Binary.Gives .mul a p n ↔ Binary.Gives .add q r n)) ∧
    (∀ a b n, Binary.Gives .add a b n → Binary.Gives .sub n b a) ∧
    (∀ (m : Machine) (s : State) (order : Nat) (dst : Var) (a b : Symbol),
      s.memory.frames.Declared dst.frame.place dst.name →
      ((∃ s', m.outcome s order (.binary .idiv dst a b) = .error .divisionByZero s') ↔
        ∃ n, s.memory.value a = .ok (.int n) ∧ s.memory.value b = .ok (.int 0))) ∧
    (∀ a b : Int64, b ≠ 0 → ∃ q, Binary.Gives .idiv a b q ∧
      (¬(a.toInt = -2 ^ 63 ∧ b.toInt = -1) → q.toInt = a.toInt.tdiv b.toInt) ∧
      (a.toInt = -2 ^ 63 → b.toInt = -1 → q.toInt = -2 ^ 63) ∧
      ∃ r : Int, a.toInt ≡ q.toInt * b.toInt + r [ZMOD 2 ^ 64] ∧
        r.natAbs < b.toInt.natAbs ∧ (r = 0 ∨ r.sign = a.toInt.sign)) := by
  refine ⟨fun a b => ⟨?_, ?_, ?_⟩, fun f hf a b n => ?_, fun f hf a b c p q n => ?_,
    fun a b c p q r n => ?_, fun a b n => ?_, fun m s order dst a b hd => ?_, fun a b hb => ?_⟩
  · exact Binary.wraps_add a b
  · exact Binary.wraps_sub a b
  · exact Binary.wraps_mul a b
  · exact Binary.gives_comm a b n f hf
  · exact Binary.gives_assoc a b c n f hf p q
  · exact Binary.gives_distrib a b c n p q r
  · exact Binary.gives_sub_of_add a b n
  · exact m.divisionByZero_iff s order dst a b hd
  · exact ⟨a / b, Binary.gives_idiv a b hb, toInt_idiv a b, toInt_idiv_overflow a b,
      exists_remainder a b hb⟩

/-- the quotient that does not fit, into the variable of the dividend -/
def wrappingMachine : Machine :=
  ⟨Program.ofInstrs [.defVar ⟨.gf, "x"⟩,
    .unary .move ⟨.gf, "x"⟩ (.literal (.int Int64.minValue)),
    .binary .idiv ⟨.gf, "x"⟩ (.var ⟨.gf, "x"⟩) (.literal (.int (-1)))], ⟨[]⟩, rfl⟩

theorem integers_wrap_overflow :
    let m := wrappingMachine
    let s := m.after 2 (State.start [] (Sink.new none) (Sink.new none))
    (m.step s).fault = none ∧
      (m.step s).state.memory.frames.read ⟨.gf, "x"⟩ = .ok (.int Int64.minValue) := by
  intro m s
  obtain ⟨_, _, _, _, _, _, hdiv⟩ := integers_wrap
  obtain ⟨q, hq, _, hoverflow, _⟩ := hdiv Int64.minValue (-1) (by decide)
  have hmin : q = Int64.minValue := Int64.toInt_inj.mp (hoverflow (by decide) (by decide))
  have hends := hq m s 3 ⟨.gf, "x"⟩ (.var ⟨.gf, "x"⟩) (.literal (.int (-1))) ⟨_, rfl⟩ rfl rfl
  obtain ⟨fs, hset, hout⟩ := hends
  have hstep := m.step_eq_outcome s ⟨3, _⟩ (by decide) rfl
  rw [hstep, hout, ← hmin]
  exact ⟨rfl, (fs.read_eq_ok_iff ⟨.gf, "x"⟩ _).mpr hset.self⟩

end IPPcode24
