import IPPcode24.Proofs.Records

/-!
# What opcodes accept

Values can be refused in stages: for their types, and then for what they are.  Here each stage is
described by itself, and so is the value that an opcode makes of values that no stage refuses.

* `Stage`, `Stage.all`      the stages of an instruction, in the order in which they count
* `Opcode.takes`            the types of the values that an opcode takes
* `Opcode.fault? op xs`     what is wrong with values in a stage
* `Opcode.make? op xs`      what an opcode makes of values that are in order
* `Guarded o P r`           a computation fails with `o`, or has a result with `P`
* `Unary.guarded_apply`, `Binary.guarded_apply`, `guarded_setChar`   **what is computed is guarded by
                            the stages of its values**
-/

namespace IPPcode24

/-! ## stages -/

inductive Stage where
  /-- the target is declared -/
  | target
  /-- the target has a value, where the instruction changes it -/
  | current
  /-- the first source can be resolved -/
  | first
  /-- the second source can be resolved -/
  | second
  /-- the values have types that the opcode takes; the data stack has a value -/
  | types
  | divisor
  | code
  | index
  | replacement
deriving DecidableEq, Repr

namespace Stage

/-- the stages at which values can be refused -/
def ofValues : List Stage := [.types, .divisor, .code, .index, .replacement]

def all : List Stage := [.target, .current, .first, .second] ++ ofValues

end Stage

/-! ## what opcodes take and make -/

/-- the types that an opcode takes, from the left -/
def Opcode.takes : Opcode → List (List Ty)
  | .move => Ty.all.map fun t => [t]
  | .add | .sub | .mul | .idiv => [[.int, .int]]
  | .lt | .gt => [[.int, .int], [.bool, .bool], [.string, .string]]
  | .eq => Ty.all.map (fun t => [t, t]) ++ Ty.all.map (fun t => [t, .nil]) ++
      Ty.all.map fun t => [.nil, t]
  | .and | .or => [[.bool, .bool]]
  | .not => [[.bool]]
  | .int2char => [[.int]]
  | .stri2int | .getChar => [[.string, .int]]
  | .concat => [[.string, .string]]
  | .strlen => [[.string]]
  | .setChar => [[.string, .int, .string]]
  | _ => [[]]

/-- what is wrong with the values of the operands in a stage, whatever the other stages say -/
def Opcode.fault? (op : Opcode) (xs : List Value) : Stage → Option Cause
  | .types =>
    if xs.map Value.ty ∈ op.takes then none else some (.operandTypes op (xs.map Value.ty))
  | .divisor =>
    match op, xs with
    | .idiv, [_, .int b] => if b = 0 then some .divisionByZero else none
    | _, _ => none
  | .code =>
    match op, xs with
    | .int2char, [.int n] =>
      if 0 ≤ n.toInt ∧ n.toInt.toNat.isValidChar then none else some (.charCode n)
    | _, _ => none
  | .index =>
    match op, xs with
    | .stri2int, [.string s, .int i] | .getChar, [.string s, .int i]
    | .setChar, [.string s, .int i, _] =>
      if 0 ≤ i.toInt ∧ i.toInt < s.length then none else some (.index i s.length)
    | _, _ => none
  | .replacement =>
    match op, xs with
    | .setChar, [_, _, .string r] => if r = "" then some .emptyReplacement else none
    | _, _ => none
  | _ => none

/-- nil and the names of types have no order -/
def Value.less : Value → Value → Bool
  | .int a, .int b => decide (a.toInt < b.toInt)
  | .bool a, .bool b => !a && b
  | .string a, .string b => decide (a < b)
  | _, _ => false

/-- the value that an opcode makes of those of its operands, where no stage refuses them -/
def Opcode.make? : Opcode → List Value → Option Value
  | .move, [x] => some x
  | .add, [.int a, .int b] => some (.int (a + b))
  | .sub, [.int a, .int b] => some (.int (a - b))
  | .mul, [.int a, .int b] => some (.int (a * b))
  | .idiv, [.int a, .int b] => some (.int (a / b))
  | .lt, [x, y] => some (.bool (x.less y))
  | .gt, [x, y] => some (.bool (y.less x))
  | .eq, [x, y] => some (.bool (decide (x = y)))
  | .and, [.bool a, .bool b] => some (.bool (a && b))
  | .or, [.bool a, .bool b] => some (.bool (a || b))
  | .not, [.bool a] => some (.bool !a)
  | .int2char, [.int n] => some (charString (Char.ofNat n.toInt.toNat))
  | .stri2int, [.string s, .int i] =>
    s.toList[i.toInt.toNat]?.map fun c => .int (Int64.ofNat c.toNat)
  | .concat, [.string s, .string t] => some (.string (s ++ t))
  | .strlen, [.string s] => some (.int (Int64.ofNat s.length))
  | .getChar, [.string s, .int i] => s.toList[i.toInt.toNat]?.map charString
  | .setChar, [.string s, .int i, .string r] =>
    r.toList.head?.map fun c => .string (String.ofList (s.toList.set i.toInt.toNat c))
  | _, _ => none

/-! ## computations that are guarded -/

/-- the computation fails with the failure there is, and has a result with `P` if there is none -/
structure Guarded {α : Type} (o : Option Cause) (P : α → Prop) (r : Except Cause α) : Prop where
  fails : ∀ c, o = some c → r = .error c
  passes : o = none → ∃ a, r = .ok a ∧ P a

namespace Guarded

section
variable {α β : Type} {o o' : Option Cause} {P : α → Prop} {Q : β → Prop} {r : Except Cause α}
  {f : α → Except Cause β}

theorem error (c : Cause) : Guarded (some c) P (.error c) where
  fails _ h := by rw [Option.some.inj h]
  passes h := nomatch h

theorem ok (a : α) (h : P a) : Guarded none P (.ok a) where
  fails _ h := nomatch h
  passes _ := ⟨a, rfl, h⟩

/-- one after the other, where what comes first counts first -/
theorem bind (h : Guarded o P r) (hf : ∀ a, P a → Guarded o' Q (f a)) :
    Guarded (o.or o') Q (r >>= f) := by
  cases o with
  | some c =>
    rw [h.fails c rfl]
    exact .error c
  | none =>
    obtain ⟨a, ha, hP⟩ := h.passes rfl
    rw [ha]
    exact hf a hP

/-- what comes last may not fail -/
theorem bind_ok (h : Guarded o P r) (hf : ∀ a, P a → ∃ b, f a = .ok b ∧ Q b) :
    Guarded o Q (r >>= f) := by
  have hlast : Guarded (o.or none) Q (r >>= f) := by
    refine h.bind fun a ha => ?_
    obtain ⟨b, hb, hQ⟩ := hf a ha
    rw [hb]
    exact .ok b hQ
  rwa [Option.or_none] at hlast

theorem or_none (h : Guarded o P r) : Guarded (o.or none) P r := by
  rwa [Option.or_none]

theorem map (h : Guarded o P r) {f : α → β} (hf : ∀ a, P a → Q (f a)) : Guarded o Q (r.map f) :=
  h.bind_ok fun a ha => ⟨f a, rfl, hf a ha⟩

/-- a condition that is asked before there is a result -/
theorem ite {p : Prop} [Decidable p] {c : Cause} (hyes : p → ∃ a, r = .ok a ∧ P a)
    (hno : ¬p → r = .error c) : Guarded (if p then none else some c) P r := by
  by_cases hp : p
  · obtain ⟨a, ha, hP⟩ := hyes hp
    rw [if_pos hp, ha]
    exact .ok a hP
  · rw [if_neg hp, hno hp]
    exact .error c

/-- the same, where the condition is the one under which there is none -/
theorem ite_not {p : Prop} [Decidable p] {c : Cause} (hyes : p → r = .error c)
    (hno : ¬p → ∃ a, r = .ok a ∧ P a) : Guarded (if p then some c else none) P r := by
  by_cases hp : p
  · rw [if_pos hp, hyes hp]
    exact .error c
  · obtain ⟨a, ha, hP⟩ := hno hp
    rw [if_neg hp, ha]
    exact .ok a hP

end
end Guarded

namespace Stage

variable (g : Stage → Option Cause)

theorem findSome?_cons (s : Stage) (ss : List Stage) :
    (s :: ss).findSome? g = (g s).or (ss.findSome? g) := by
  rw [List.findSome?_cons]
  cases g s <;> rfl

theorem findSome?_all : all.findSome? g =
    (g .target).or ((g .current).or ((g .first).or ((g .second).or (ofValues.findSome? g)))) := by
  show ([target, .current, .first, .second] ++ ofValues).findSome? g = _
  simp only [List.cons_append, List.nil_append, findSome?_cons]

theorem findSome?_ofValues : ofValues.findSome? g =
    (g .types).or ((g .divisor).or ((g .code).or ((g .index).or (g .replacement)))) := by
  simp only [ofValues, findSome?_cons, List.findSome?_nil, Option.or_none]

end Stage

/-! ## values -/

section
variable {x y : Value}

theorem type_of_mem {t : Ty} (h : [x.ty] ∈ [[t]]) : x.ty = t := by
  simpa using h

theorem types_of_mem {t u : Ty} (h : [x.ty, y.ty] ∈ [[t, u]]) : x.ty = t ∧ y.ty = u := by
  simpa using h

namespace Value

theorem exists_int (h : x.ty = .int) : ∃ n, x = .int n := by
  cases x with
  | int n => exact ⟨n, rfl⟩
  | _ => cases h

theorem exists_bool (h : x.ty = .bool) : ∃ b, x = .bool b := by
  cases x with
  | bool b => exact ⟨b, rfl⟩
  | _ => cases h

theorem exists_string (h : x.ty = .string) : ∃ s, x = .string s := by
  cases x with
  | string s => exact ⟨s, rfl⟩
  | _ => cases h

theorem exists_ints (h : [x.ty, y.ty] ∈ [[Ty.int, .int]]) : ∃ a b, x = .int a ∧ y = .int b := by
  obtain ⟨hx, hy⟩ := types_of_mem h
  obtain ⟨a, ha⟩ := exists_int hx
  obtain ⟨b, hb⟩ := exists_int hy
  exact ⟨a, b, ha, hb⟩

theorem exists_bools (h : [x.ty, y.ty] ∈ [[Ty.bool, .bool]]) :
    ∃ a b, x = .bool a ∧ y = .bool b := by
  obtain ⟨hx, hy⟩ := types_of_mem h
  obtain ⟨a, ha⟩ := exists_bool hx
  obtain ⟨b, hb⟩ := exists_bool hy
  exact ⟨a, b, ha, hb⟩

theorem exists_strings (h : [x.ty, y.ty] ∈ [[Ty.string, .string]]) :
    ∃ s t, x = .string s ∧ y = .string t := by
  obtain ⟨hx, hy⟩ := types_of_mem h
  obtain ⟨s, hs⟩ := exists_string hx
  obtain ⟨t, ht⟩ := exists_string hy
  exact ⟨s, t, hs, ht⟩

end Value
end

/-- values of types that are not taken are refused for that; the other stages count for the rest -/
theorem Opcode.guarded_of_takes (op : Opcode) (xs : List Value) {P : Value → Prop}
    {r : Except Cause Value}
    (hno : xs.map Value.ty ∉ op.takes → r = .error (.operandTypes op (xs.map Value.ty)))
    (hyes : xs.map Value.ty ∈ op.takes →
      Guarded ((op.fault? xs .divisor).or ((op.fault? xs .code).or
        ((op.fault? xs .index).or (op.fault? xs .replacement)))) P r) :
    Guarded (Stage.ofValues.findSome? (op.fault? xs)) P r := by
  rw [Stage.findSome?_ofValues]
  by_cases h : xs.map Value.ty ∈ op.takes
  · rw [show op.fault? xs .types = none from if_pos h]
    exact hyes h
  · rw [show op.fault? xs .types = some _ from if_neg h, hno h]
    exact .error _

theorem guarded_position (i : Int64) (length : Nat) :
    Guarded (if 0 ≤ i.toInt ∧ i.toInt < length then none else some (.index i length))
      (fun k => k = i.toInt.toNat ∧ k < length) (position i length) := by
  refine Guarded.ite (fun h => ?_) fun h => ?_
  · have hlt : i.toInt.toNat < length := by omega
    exact ⟨_, if_pos ⟨h.1, hlt⟩, rfl, hlt⟩
  · exact if_neg fun hp => h ⟨hp.1, by omega⟩

theorem guarded_charAt (s : String) (i : Int64) :
    Guarded (if 0 ≤ i.toInt ∧ i.toInt < s.length then none else some (.index i s.length))
      (fun c => s.toList[i.toInt.toNat]? = some c) (charAt s i) := by
  refine (guarded_position i s.length).bind_ok fun k hk => ?_
  obtain ⟨rfl, hlt⟩ := hk
  rw [← String.length_toList] at hlt
  rw [List.getElem?_eq_getElem hlt]
  exact ⟨_, rfl, rfl⟩

theorem guarded_replacement (s : String) :
    Guarded (if s = "" then some .emptyReplacement else none)
      (fun c => s.toList.head? = some c) (replacement s) := by
  rw [replacement]
  refine Guarded.ite_not (fun h => ?_) fun h => ?_
  · rw [h]
    rfl
  · cases hs : s.toList with
    | nil => exact absurd (String.toList_eq_nil_iff.mp hs) h
    | cons c cs => exact ⟨c, rfl, rfl⟩

theorem guarded_charOfCode (n : Int64) :
    Guarded (if 0 ≤ n.toInt ∧ n.toInt.toNat.isValidChar then none else some (.charCode n))
      (fun y => some (charString (Char.ofNat n.toInt.toNat)) = some y)
      (Unary.int2char.apply (.int n)) := by
  refine Guarded.ite (fun hn => ?_) fun hn => ?_
  · exact ⟨_, by rw [Unary.apply, charOfCode?, if_pos hn], rfl⟩
  · rw [Unary.apply, charOfCode?, if_neg hn]

theorem Unary.guarded_apply (f : Unary) (x : Value) :
    Guarded (Stage.ofValues.findSome? (f.opcode.fault? [x]))
      (fun y => f.opcode.make? [x] = some y) (f.apply x) := by
  refine f.opcode.guarded_of_takes [x] (fun h => ?_) fun h => ?_
  · unfold apply
    split
    · cases x <;> simp [opcode, Opcode.takes, Ty.all, Value.ty] at h
    all_goals first | rfl | exact absurd (.head _) h
  · cases f with
    | move => exact .ok x rfl
    | not =>
      obtain ⟨b, rfl⟩ := Value.exists_bool (type_of_mem h)
      exact .ok _ rfl
    | int2char =>
      obtain ⟨n, rfl⟩ := Value.exists_int (type_of_mem h)
      exact (guarded_charOfCode n).or_none
    | strlen =>
      obtain ⟨s, rfl⟩ := Value.exists_string (type_of_mem h)
      exact .ok _ rfl

/-! ### two values -/

theorem guarded_idiv (a b : Int64) :
    Guarded (if b = 0 then some .divisionByZero else none)
      (fun z => some (.int (a / b)) = some z) (Binary.idiv.apply (.int a) (.int b)) := by
  refine Guarded.ite_not (fun hb => ?_) fun hb => ?_
  · rw [Binary.apply, if_pos hb]
  · exact ⟨_, by rw [Binary.apply, if_neg hb], rfl⟩

/-- the order of two values is the one of `Value.less` -/
theorem order_of_takes (op : Opcode) (x y : Value) (h : [x.ty, y.ty] ∈ Opcode.lt.takes) :
    ∃ o, order op x y = .ok o ∧ (o = .lt ↔ x.less y = true) ∧ (o = .gt ↔ y.less x = true) ∧
      (o = .eq ↔ x = y) := by
  obtain h | h := List.mem_cons.mp h
  · obtain ⟨a, b, rfl, rfl⟩ := Value.exists_ints (List.mem_singleton.mpr h)
    refine ⟨_, rfl, ?_, ?_, ?_⟩
    · rw [Int.compare_eq_lt, Value.less, decide_eq_true_iff]
    · rw [Int.compare_eq_gt, Value.less, decide_eq_true_iff]
    · rw [Int.compare_eq_eq, Int64.toInt_inj, Value.int.injEq]
  obtain h | h := List.mem_cons.mp h
  · obtain ⟨a, b, rfl, rfl⟩ := Value.exists_bools (List.mem_singleton.mpr h)
    refine ⟨_, rfl, ?_, ?_, ?_⟩
    all_goals cases a <;> cases b <;> decide
  · obtain ⟨a, b, rfl, rfl⟩ := Value.exists_strings h
    refine ⟨_, rfl, ?_, ?_, ?_⟩
    · rw [compareOfLessAndEq_eq_lt, Value.less, decide_eq_true_iff]
    · rw [compareOfLessAndEq_eq_gt String.le_antisymm String.le_total String.not_le, Value.less,
        decide_eq_true_iff]
    · rw [compareOfLessAndEq_eq_eq String.le_refl String.not_le, Value.string.injEq]

theorem order_of_not_takes (op : Opcode) (x y : Value) (h : [x.ty, y.ty] ∉ Opcode.lt.takes) :
    order op x y = .error (.operandTypes op [x.ty, y.ty]) := by
  unfold order Value.compare?
  split
  · next hsome =>
    split at hsome
    · exact absurd (.head _) h
    · exact absurd (.tail _ (.head _)) h
    · exact absurd (.tail _ (.tail _ (.head _))) h
    · cases hsome
  · rfl

theorem Opcode.mem_takes_eq (x y : Value) :
    [x.ty, y.ty] ∈ Opcode.eq.takes ↔ x.ty = .nil ∨ y.ty = .nil ∨ x.ty = y.ty := by
  cases x.ty <;> cases y.ty <;> decide

theorem Binary.guarded_apply (f : Binary) (x y : Value) :
    Guarded (Stage.ofValues.findSome? (f.opcode.fault? [x, y]))
      (fun z => f.opcode.make? [x, y] = some z) (f.apply x y) := by
  refine f.opcode.guarded_of_takes [x, y] (fun h => ?_) fun h => ?_
  · unfold apply
    split
    case h_5 | h_6 =>
      rw [order_of_not_takes _ _ _ h]
      rfl
    case h_7 =>
      rw [equal, Value.equal?, if_neg fun hp => h ((Opcode.mem_takes_eq _ _).mpr hp)]
      rfl
    case h_13 => rfl
    all_goals exact absurd (.head _) h
  · cases f with
    | add | sub | mul =>
      obtain ⟨a, b, rfl, rfl⟩ := Value.exists_ints h
      exact .ok _ rfl
    | idiv =>
      obtain ⟨a, b, rfl, rfl⟩ := Value.exists_ints h
      exact (guarded_idiv a b).or_none
    | lt =>
      obtain ⟨o, ho, hlt, _⟩ := order_of_takes .lt x y h
      have hless : o.isLT = x.less y := by rw [Bool.eq_iff_iff, Ordering.isLT_iff_eq_lt, hlt]
      rw [apply, ho]
      exact .ok _ (congrArg (fun b => some (Value.bool b)) hless.symm)
    | gt =>
      obtain ⟨o, ho, _, hgt, _⟩ := order_of_takes .gt x y h
      have hless : o.isGT = y.less x := by rw [Bool.eq_iff_iff, Ordering.isGT_iff_eq_gt, hgt]
      rw [apply, ho]
      exact .ok _ (congrArg (fun b => some (Value.bool b)) hless.symm)
    | eq =>
      rw [apply, equal, Value.equal?, if_pos ((Opcode.mem_takes_eq x y).mp h)]
      exact .ok _ rfl
    | and | or =>
      obtain ⟨a, b, rfl, rfl⟩ := Value.exists_bools h
      exact .ok _ rfl
    | concat =>
      obtain ⟨s, t, rfl, rfl⟩ := Value.exists_strings h
      exact .ok _ rfl
    | stri2int | getChar =>
      obtain ⟨hx, hy⟩ := types_of_mem h
      obtain ⟨s, rfl⟩ := Value.exists_string hx
      obtain ⟨i, rfl⟩ := Value.exists_int hy
      refine (guarded_charAt s i).or_none.map fun c hc => ?_
      simp only [Binary.opcode, Opcode.make?, hc, Option.map_some]

theorem guarded_setChar (x y z : Value) :
    Guarded (Stage.ofValues.findSome? (Opcode.setChar.fault? [x, y, z]))
      (fun w => Opcode.setChar.make? [x, y, z] = some w) (setChar x y z) := by
  refine Opcode.setChar.guarded_of_takes [x, y, z] (fun h => ?_) fun h => ?_
  · unfold setChar
    split
    · exact absurd (.head _) h
    · rfl
  · have htypes : x.ty = .string ∧ y.ty = .int ∧ z.ty = .string := by
      simpa [Opcode.takes] using h
    obtain ⟨hx, hy, hz⟩ := htypes
    obtain ⟨s, rfl⟩ := Value.exists_string hx
    obtain ⟨i, rfl⟩ := Value.exists_int hy
    obtain ⟨r, rfl⟩ := Value.exists_string hz
    refine (guarded_position i s.length).bind fun k hk => ?_
    refine (guarded_replacement r).bind_ok fun c hc => ?_
    refine ⟨_, rfl, ?_⟩
    simp only [Opcode.make?, hc, hk.1, Option.map_some]

end IPPcode24
