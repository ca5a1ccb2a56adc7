import Mathlib.Data.String.Basic
import IPPcode24.Proofs.Equality

/-!
# The order of values

LT, EQ and GT ask for one order, which is total on the integers, on the truth values and on the
strings.

* `Value.less_eq_true`           what it is for a value to be below another one
* `Value.less_irrefl`, `less_trans`, `less_append`   the order is strict, and prefixes come first
* `Binary.ofOrdering`            the opcode that asks for an ordering
* `Binary.guarded_ofOrdering`    these opcodes only look at types before they compare
* `make?_ofOrdering`             **the ordering of two values is the one that is asked for with the
                                 answer yes**
* `Machine.stores_iff_values`    what such an instruction stores, for any symbols

Main statement, `Machine.order_total`.
-/

namespace IPPcode24

/-! ## values -/

theorem Opcode.mem_takes_lt (x y : Value) :
    [x.ty, y.ty] ∈ Opcode.lt.takes ↔ x.ty = y.ty ∧ x.ty ∈ [Ty.int, .bool, .string] := by
  cases x.ty <;> cases y.ty <;> decide

namespace Value

theorem less_eq_true (x y : Value) : x.less y = true ↔
    (∃ a b : Int64, x = .int a ∧ y = .int b ∧ a.toInt < b.toInt) ∨
    (x = .bool false ∧ y = .bool true) ∨
    ∃ s t : String, x = .string s ∧ y = .string t ∧ s < t := by
  constructor
  · intro h
    unfold less at h
    split at h
    · next a b => exact .inl ⟨a, b, rfl, rfl, of_decide_eq_true h⟩
    · next a b =>
      cases a <;> cases b <;> cases h
      exact .inr (.inl ⟨rfl, rfl⟩)
    · next s t => exact .inr (.inr ⟨s, t, rfl, rfl, of_decide_eq_true h⟩)
    · cases h
  · intro h
    obtain ⟨a, b, rfl, rfl, h⟩ | ⟨rfl, rfl⟩ | ⟨s, t, rfl, rfl, h⟩ := h
    · exact decide_eq_true h
    · rfl
    · exact decide_eq_true h

theorem takes_of_less (x y : Value) (h : x.less y = true) : [x.ty, y.ty] ∈ Opcode.lt.takes := by
  rw [less_eq_true] at h
  obtain ⟨a, b, rfl, rfl, _⟩ | ⟨rfl, rfl⟩ | ⟨s, t, rfl, rfl, _⟩ := h
  · exact .head _
  · exact .tail _ (.head _)
  · exact .tail _ (.tail _ (.head _))

theorem less_irrefl (x : Value) : x.less x = false := by
  cases x with
  | int a => exact decide_eq_false (Int.lt_irrefl a.toInt)
  | bool b => cases b <;> rfl
  | string s => exact decide_eq_false (String.lt_irrefl s)
  | nil => rfl
  | type t => rfl

theorem less_trans (x y z : Value) (hxy : x.less y = true) (hyz : y.less z = true) :
    x.less z = true := by
  rw [less_eq_true] at hxy
  obtain ⟨a, b, rfl, rfl, hab⟩ | ⟨rfl, rfl⟩ | ⟨s, t, rfl, rfl, hst⟩ := hxy
  · obtain ⟨_, c, hb, rfl, hbc⟩ | ⟨hb, _⟩ | ⟨_, _, hb, _⟩ := (less_eq_true _ z).mp hyz
    · cases hb
      exact decide_eq_true (Int.lt_trans hab hbc)
    all_goals cases hb
  · obtain ⟨_, _, hb, _⟩ | ⟨hb, _⟩ | ⟨_, _, hb, _⟩ := (less_eq_true _ z).mp hyz
    all_goals cases hb
  · obtain ⟨_, _, ht, _⟩ | ⟨ht, _⟩ | ⟨_, u, ht, rfl, htu⟩ := (less_eq_true _ z).mp hyz
    case inr.inr =>
      cases ht
      exact decide_eq_true (String.lt_trans hst htu)
    all_goals cases ht

theorem less_append (p t : String) (ht : t ≠ "") :
    (string p).less (.string (p ++ t)) = true := by
  refine decide_eq_true ?_
  cases h : t.toList with
  | nil => exact absurd (String.toList_eq_nil_iff.mp h) ht
  | cons c cs =>
    have hlt : p.toList ++ [] < p.toList ++ c :: cs := List.append_left_lt (List.nil_lt_cons c cs)
    rwa [String.lt_iff_toList_lt, String.toList_append, h, ← List.append_nil p.toList,
      List.append_assoc]

end Value

/-! ## the opcodes -/

def Binary.ofOrdering : Ordering → Binary
  | .lt => .lt
  | .eq => .eq
  | .gt => .gt

theorem Binary.mem_relational (f : Binary) :
    f ∈ [Binary.lt, .eq, .gt] ↔ ∃ o, f = .ofOrdering o := by
  constructor
  · intro h
    cases f with
    | lt => exact ⟨.lt, rfl⟩
    | eq => exact ⟨.eq, rfl⟩
    | gt => exact ⟨.gt, rfl⟩
    | _ => exact absurd h (by decide)
  · intro h
    obtain ⟨o, rfl⟩ := h
    cases o <;> decide

theorem Binary.exists_ofOrdering (f : Binary) (hf : f ∈ [Binary.lt, .gt]) :
    ∃ o, f = .ofOrdering o ∧ (Binary.ofOrdering o).opcode.takes = Opcode.lt.takes := by
  obtain rfl | hf := List.mem_cons.mp hf
  · exact ⟨.lt, rfl, rfl⟩
  · exact ⟨.gt, List.mem_singleton.mp hf, rfl⟩

theorem Binary.guarded_ofOrdering (o : Ordering) (x y : Value) :
    Guarded (if [x.ty, y.ty] ∈ (ofOrdering o).opcode.takes then none
        else some (.operandTypes (ofOrdering o).opcode [x.ty, y.ty]))
      (fun z => (ofOrdering o).opcode.make? [x, y] = some z) ((ofOrdering o).apply x y) := by
  have hguard := (ofOrdering o).guarded_apply x y
  rw [Stage.findSome?_ofValues] at hguard
  cases o with
  | lt | eq | gt => rwa [← Option.or_none (o := ite _ _ _)]

theorem Binary.apply_ofOrdering (o : Ordering) (x y z : Value) :
    (ofOrdering o).apply x y = .ok z ↔
      [x.ty, y.ty] ∈ (ofOrdering o).opcode.takes ∧ (ofOrdering o).opcode.make? [x, y] = some z := by
  have hguard := guarded_ofOrdering o x y
  by_cases h : [x.ty, y.ty] ∈ (ofOrdering o).opcode.takes
  · obtain ⟨w, hw, hmake⟩ := hguard.passes (if_pos h)
    rw [hw, hmake, and_iff_right h, Except.ok.injEq, Option.some.injEq]
  · rw [hguard.fails _ (if_neg h)]
    exact ⟨fun hok => (nomatch hok), fun hmem => absurd hmem.1 h⟩

theorem some_bool_eq (v w : Bool) : some (Value.bool v) = some (.bool w) ↔ v = w := by
  rw [Option.some.injEq, Value.bool.injEq]

/-- two values have one ordering, and the opcode that asks for it is the one that makes `true` -/
theorem make?_ofOrdering (x y : Value) (h : [x.ty, y.ty] ∈ Opcode.lt.takes) :
    ∃ o, ∀ r, (Binary.ofOrdering r).opcode.make? [x, y] = some (.bool true) ↔ r = o := by
  obtain ⟨o, _, hlt, hgt, heq⟩ := order_of_takes .lt x y h
  refine ⟨o, fun r => ?_⟩
  rw [eq_comm (b := o)]
  cases r with
  | lt => exact (some_bool_eq _ true).trans hlt.symm
  | eq => exact (some_bool_eq _ true).trans (decide_eq_true_iff.trans heq.symm)
  | gt => exact (some_bool_eq _ true).trans hgt.symm

theorem takes_ofOrdering (x y : Value) (h : [x.ty, y.ty] ∈ Opcode.lt.takes) (o : Ordering) :
    [x.ty, y.ty] ∈ (Binary.ofOrdering o).opcode.takes := by
  cases o with
  | lt | gt => exact h
  | eq => exact (Opcode.mem_takes_eq x y).mpr (.inr (.inr ((Opcode.mem_takes_lt x y).mp h).1))

/-! ## what is stored -/

theorem Memory.combine_eq_ok (m : Memory) (a b : Symbol) (f : Binary) (z : Value) :
    m.combine a b f = .ok z ↔
      ∃ x y, m.value a = .ok x ∧ m.value b = .ok y ∧ f.apply x y = .ok z := by
  rw [combine, bind_eq_ok]
  refine exists_congr fun x => ?_
  rw [bind_eq_ok, exists_and_left]

namespace Machine

section
variable (m : Machine) (s : State) (order : Nat) (dst : Var) (a b c : Symbol)
  (hd : s.memory.frames.Declared dst.frame.place dst.name)
include hd

theorem stores_iff_values (o : Ordering) (z : Value) :
    m.Stores s order (.ofOrdering o) dst a b z ↔
      ∃ x y, s.memory.value a = .ok x ∧ s.memory.value b = .ok y ∧
        [x.ty, y.ty] ∈ (Binary.ofOrdering o).opcode.takes ∧
        (Binary.ofOrdering o).opcode.make? [x, y] = some z := by
  rw [stores_iff m s order dst a b _ hd, Memory.combine_eq_ok]
  simp only [Binary.apply_ofOrdering]

/-- to be above is to have the other one below -/
theorem stores_gt_iff_lt (v : Bool) :
    m.Stores s order .gt dst a b (.bool v) ↔ m.Stores s order .lt dst b a (.bool v) := by
  have hswap : ∀ x y : Value,
      [x.ty, y.ty] ∈ Opcode.gt.takes ↔ [y.ty, x.ty] ∈ Opcode.lt.takes := by
    intro x y
    cases x.ty <;> cases y.ty <;> decide
  refine (stores_iff_values m s order dst a b hd .gt _).trans ?_
  refine Iff.trans ?_ (stores_iff_values m s order dst b a hd .lt _).symm
  rw [exists_comm]
  refine exists_congr fun y => exists_congr fun x => ?_
  rw [and_left_comm, show (Binary.ofOrdering .gt).opcode = .gt from rfl, hswap x y]
  rfl

section
variable (x y : Value) (hx : s.memory.value a = .ok x) (hy : s.memory.value b = .ok y)
include hx hy

theorem stores_of_values (o : Ordering) (z : Value) :
    m.Stores s order (.ofOrdering o) dst a b z ↔
      [x.ty, y.ty] ∈ (Binary.ofOrdering o).opcode.takes ∧
      (Binary.ofOrdering o).opcode.make? [x, y] = some z := by
  rw [stores_iff m s order dst a b _ hd, s.memory.combine_of_values a b _ x y hx hy,
    Binary.apply_ofOrdering]

theorem exists_stores_iff (o : Ordering) :
    (∃ v, m.Stores s order (.ofOrdering o) dst a b (.bool v)) ↔
      [x.ty, y.ty] ∈ (Binary.ofOrdering o).opcode.takes := by
  simp only [stores_of_values m s order dst a b hd x y hx hy, exists_and_left]
  refine and_iff_left ?_
  cases o with
  | lt | eq | gt => exact ⟨_, rfl⟩

theorem outcome_of_not_takes (o : Ordering)
    (h : [x.ty, y.ty] ∉ (Binary.ofOrdering o).opcode.takes) :
    m.outcome s order (.binary (.ofOrdering o) dst a b)
      = .error (.operandTypes (Binary.ofOrdering o).opcode [x.ty, y.ty]) s := by
  refine outcome_of_combine_error m s order dst a b _ hd _ ?_
  rw [s.memory.combine_of_values a b _ x y hx hy]
  exact (Binary.guarded_ofOrdering o x y).fails _ (if_neg h)

theorem stores_lt_of_values :
    m.Stores s order .lt dst a b (.bool true) ↔ x.less y = true := by
  refine (stores_of_values m s order dst a b hd x y hx hy .lt _).trans ?_
  constructor
  · intro h
    exact (some_bool_eq _ true).mp h.2
  · intro h
    exact ⟨x.takes_of_less y h, (some_bool_eq _ true).mpr h⟩

theorem exists_ordering (h : [x.ty, y.ty] ∈ Opcode.lt.takes) :
    ∃ o, ∀ r, m.Stores s order (.ofOrdering r) dst a b (.bool true) ↔ r = o := by
  obtain ⟨o, ho⟩ := make?_ofOrdering x y h
  refine ⟨o, fun r => ?_⟩
  rw [stores_of_values m s order dst a b hd x y hx hy, ho r]
  exact and_iff_right (takes_ofOrdering x y h r)

end

/-- one opcode out of the three says yes -/
theorem existsUnique_stores (x y : Value) (hx : s.memory.value a = .ok x)
    (hy : s.memory.value b = .ok y) (h : [x.ty, y.ty] ∈ Opcode.lt.takes) :
    ∃! f, f ∈ [Binary.lt, .eq, .gt] ∧ m.Stores s order f dst a b (.bool true) := by
  obtain ⟨o, ho⟩ := exists_ordering m s order dst a b hd x y hx hy h
  refine ⟨.ofOrdering o, ⟨(Binary.mem_relational _).mpr ⟨o, rfl⟩, (ho o).mpr rfl⟩, fun f hf => ?_⟩
  obtain ⟨r, rfl⟩ := (Binary.mem_relational f).mp hf.1
  rw [(ho r).mp hf.2]

theorem stores_lt_trans (hab : m.Stores s order .lt dst a b (.bool true))
    (hbc : m.Stores s order .lt dst b c (.bool true)) :
    m.Stores s order .lt dst a c (.bool true) := by
  obtain ⟨x, y, hx, hy, _⟩ := (stores_iff_values m s order dst a b hd .lt _).mp hab
  obtain ⟨_, z, _, hz, _⟩ := (stores_iff_values m s order dst b c hd .lt _).mp hbc
  rw [stores_lt_of_values m s order dst _ _ hd _ _ hx hy] at hab
  rw [stores_lt_of_values m s order dst _ _ hd _ _ hy hz] at hbc
  rw [stores_lt_of_values m s order dst _ _ hd _ _ hx hz]
  exact x.less_trans y z hab hbc

end

/-- **One order for three opcodes.**  In any state in which the target is declared: LT and GT store
a verdict on two symbols that have values exactly if both are integers, truth values or strings, and
report the types otherwise.  Where they do, EQ does, and exactly one of the three stores `true`.  GT
stores what LT stores for the symbols the other way around, and LT is irreflexive and transitive.
The value `false` is below `true`, and a string is below all that it is a proper prefix of. -/
theorem order_total (m : Machine) (s : State) (order : Nat) (dst : Var)
    (hd : s.memory.frames.Declared dst.frame.place dst.name) :
    let value := s.memory.value
    let stores := fun f a b v => m.Stores s order f dst a b (.bool v)
    let ordered := fun x y : Value => x.ty = y.ty ∧ x.ty ∈ [Ty.int, .bool, .string]
    (∀ f a b x y, f ∈ [Binary.lt, .gt] → value a = .ok x → value b = .ok y →
      ((∃ v, stores f a b v) ↔ ordered x y) ∧
      (¬ordered x y →
        m.outcome s order (.binary f dst a b) = .error (.operandTypes f.opcode [x.ty, y.ty]) s)) ∧
    (∀ f a b, f ∈ [Binary.lt, .gt] → (∃ v, stores f a b v) →
      (∃ v, stores .eq a b v) ∧ ∃! g, g ∈ [Binary.lt, .eq, .gt] ∧ stores g a b true) ∧
    (∀ a b v, stores .gt a b v ↔ stores .lt b a v) ∧
    (∀ a b x, value a = .ok x → value b = .ok x → ¬stores .lt a b true) ∧
    (∀ a b c, stores .lt a b true → stores .lt b c true → stores .lt a c true) ∧
    (∀ a b, value a = .ok (.bool false) → value b = .ok (.bool true) → stores .lt a b true) ∧
    (∀ a b p t, t ≠ "" → value a = .ok (.string p) → value b = .ok (.string (p ++ t)) →
      stores .lt a b true) := by
  intro value stores ordered
  refine ⟨fun f a b x y hf hx hy => ?_, fun f a b hf hv => ?_, ?_, ?_, ?_, ?_, ?_⟩
  · obtain ⟨o, rfl, ho⟩ := f.exists_ofOrdering hf
    have htakes : ordered x y ↔ [x.ty, y.ty] ∈ (Binary.ofOrdering o).opcode.takes := by
      rw [ho, Opcode.mem_takes_lt]
    rw [htakes]
    exact ⟨exists_stores_iff m s order dst a b hd x y hx hy o,
      outcome_of_not_takes m s order dst a b hd x y hx hy o⟩
  · obtain ⟨o, rfl, ho⟩ := f.exists_ofOrdering hf
    obtain ⟨v, hv⟩ := hv
    obtain ⟨x, y, hx, hy, htakes, _⟩ := (stores_iff_values m s order dst a b hd o _).mp hv
    rw [ho] at htakes
    exact ⟨(exists_stores_iff m s order dst a b hd x y hx hy .eq).mpr
      (takes_ofOrdering x y htakes .eq), existsUnique_stores m s order dst a b hd x y hx hy htakes⟩
  · intro a b v
    exact stores_gt_iff_lt m s order dst a b hd v
  · intro a b x hx hy
    show ¬m.Stores s order .lt dst a b (.bool true)
    rw [stores_lt_of_values m s order dst a b hd x x hx hy, x.less_irrefl]
    exact Bool.false_ne_true
  · intro a b c
    exact stores_lt_trans m s order dst a b c hd
  · intro a b hx hy
    exact (stores_lt_of_values m s order dst a b hd _ _ hx hy).mpr rfl
  · intro a b p t ht hx hy
    exact (stores_lt_of_values m s order dst a b hd _ _ hx hy).mpr (Value.less_append p t ht)

/-- a string is compared with one that it is a proper prefix of, the other way around -/
def orderingMachine : Machine :=
  ⟨Program.ofInstrs [.defVar ⟨.gf, "x"⟩, .unary .move ⟨.gf, "x"⟩ (.literal (.string "ab")),
    .binary .gt ⟨.gf, "x"⟩ (.literal (.string "abc")) (.var ⟨.gf, "x"⟩)], ⟨[]⟩, rfl⟩

theorem order_total_prefix :
    let m := orderingMachine
    let s := m.after 2 (State.start [] (Sink.new none) (Sink.new none))
    let x : Var := ⟨.gf, "x"⟩
    (m.step s).fault = none ∧ (m.step s).state.memory.frames.read x = .ok (.bool true) ∧
    (∃! f, f ∈ [Binary.lt, .eq, .gt] ∧
      m.Stores s 3 f x (.var x) (.literal (.string "abc")) (.bool true)) ∧
    m.outcome s 3 (.binary .lt x (.var x) (.literal .nil))
      = .error (.operandTypes .lt [.string, .nil]) s := by
  intro m s x
  have hd : s.memory.frames.Declared .gf "x" := ⟨.holds (.string "ab"), by decide⟩
  obtain ⟨hvalues, hone, hgt, _, _, _, hprefix⟩ := m.order_total s 3 x hd
  have hlt : m.Stores s 3 .lt x (.var x) (.literal (.string "abc")) (.bool true) :=
    hprefix _ _ "ab" "c" (by decide) (by decide) (by decide)
  have habove : m.Stores s 3 .gt x (.literal (.string "abc")) (.var x) (.bool true) :=
    (hgt _ _ true).mpr hlt
  obtain ⟨s', hs', hread⟩ := habove
  have hstep : m.step s = .ofResult (m.outcome s 3 (.binary .gt x (.literal (.string "abc"))
      (.var x))) := m.step_eq_outcome s ⟨3, _⟩ (by decide) rfl
  rw [hstep, hs']
  refine ⟨rfl, hread, (hone .lt _ _ (.head _) ⟨true, hlt⟩).2, ?_⟩
  exact (hvalues .lt _ _ (.string "ab") .nil (.head _) (by decide) rfl).2 (by decide)

end Machine
end IPPcode24
