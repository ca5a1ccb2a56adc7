import IPPcode24.Proofs.Labels
import IPPcode24.Proofs.Stages

/-!
# Equality of values

EQ and the conditional jumps compare two values in one way.

* `Machine.outcome m s order i`     how an instruction ends if it is the next one in `s`
* `Machine.Stores m s order f dst a b x`   an instruction of two sources ends with `x` in its target
* `Cause.withOpcode op`             the same failure, reported by another opcode
* `Memory.verdict`                  the verdict on two symbols
* `Memory.verdict_withOpcode`       **it is the same for all opcodes that ask for it**
* `Machine.outcome_binary`, `outcome_jumpIf`   the outcomes, by what becomes of the values
* `Value.equal?_comm`, `equal?_eq_none`, `equal?_eq_true`   the verdict on two values

Main statement, `Machine.equality_shared`.
-/

namespace IPPcode24

/-! ## instructions in one state -/

namespace Machine

def outcome (m : Machine) (s : State) (order : Nat) (i : Instr) :
    EStateM.Result Cause State Course :=
  Routine.ofOpcode m.labels order i.opcode i.operands s

def Stores (m : Machine) (s : State) (order : Nat) (f : Binary) (dst : Var) (a b : Symbol)
    (x : Value) : Prop :=
  ∃ s', m.outcome s order (.binary f dst a b) = .ok .ahead s' ∧
    s'.memory.frames.read dst = .ok x

/-- a step comes to the outcome of the instruction that is next -/
theorem step_eq_outcome (m : Machine) (s : State) (r : Record) (hs : s.status = .running)
    (hr : m.program.get? s.pc = some r) : m.step s = .ofResult (m.outcome s r.order r.instr) := by
  rw [step, hs, hr]
  rfl

theorem outcome_eq_finish (m : Machine) (s : State) (order : Nat) (i : Instr) :
    m.outcome s order i = s.finish (i.effect m.labels s order) :=
  Routine.ofOpcode_eq_finish m.labels order s i

end Machine

/-! ## the verdict on two symbols -/

/-- only the types of operands are reported together with the opcode -/
def Cause.withOpcode (op : Opcode) : Cause → Cause
  | .operandTypes _ found => .operandTypes op found
  | c => c

namespace Memory

variable (m : Memory) (a b : Symbol)

def combine (f : Binary) : Except Cause Value := do
  let x ← m.value a
  let y ← m.value b
  f.apply x y

def verdict (op : Opcode) : Except Cause Bool := do
  let x ← m.value a
  let y ← m.value b
  equal op x y

theorem combine_eq_verdict : m.combine a b .eq = (m.verdict a b .eq).map .bool := by
  rw [combine, verdict, map_of_bind]
  refine congrArg _ (funext fun x => ?_)
  rw [map_of_bind]
  rfl

theorem combine_of_values (f : Binary) (x y : Value) (hx : m.value a = .ok x)
    (hy : m.value b = .ok y) : m.combine a b f = f.apply x y := by
  rw [combine, hx, hy]
  rfl

/-- a symbol without a value is one that the frames have no value for -/
theorem access_of_value_error (c : Cause) (h : m.value a = .error c) : ∃ e, c = .access e := by
  cases a with
  | literal x => cases h
  | var v =>
    cases hr : m.frames.read v with
    | ok x => rw [value, hr] at h; cases h
    | error e => rw [value, hr] at h; exact ⟨e, (Except.error.inj h).symm⟩

/-- **The verdict is the same for all opcodes that ask for it**, and so is its failure but for the
opcode. -/
theorem verdict_withOpcode (op op' : Opcode) :
    m.verdict a b op' = (m.verdict a b op).mapError (Cause.withOpcode op') := by
  have hvalue : ∀ (c : Symbol) (e : Cause), m.value c = .error e → e.withOpcode op' = e := by
    intro c e h
    obtain ⟨e', rfl⟩ := m.access_of_value_error c e h
    rfl
  rw [verdict, verdict]
  cases ha : m.value a with
  | error e => exact congrArg Except.error (hvalue a e ha).symm
  | ok x =>
    cases hb : m.value b with
    | error e => exact congrArg Except.error (hvalue b e hb).symm
    | ok y =>
      show equal op' x y = (equal op x y).mapError (Cause.withOpcode op')
      unfold equal
      cases x.equal? y <;> rfl

end Memory

namespace Machine

variable (m : Machine) (s : State) (order : Nat) (dst : Var) (name : String) (a b : Symbol)

/-! ## outcomes -/

section
variable (f : Binary) (hd : s.memory.frames.Declared dst.frame.place dst.name)
include hd

/-- a declared target is no reason to fail, so only the values count -/
theorem outcome_binary : m.outcome s order (.binary f dst a b)
    = s.finish (s.memory.combine a b f >>= fun z => s.memory.setVar dst z >>= fun n =>
        .ok (.ahead n)) := by
  rw [outcome_eq_finish, Instr.effect, s.memory.checkTarget_of_declared dst hd, Memory.combine]
  simp only [bind_assoc]
  rfl

theorem stores_of_combine (x : Value) (h : s.memory.combine a b f = .ok x) :
    m.Stores s order f dst a b x := by
  have houtcome := outcome_binary m s order dst a b f hd
  obtain ⟨slot, hslot⟩ := hd
  obtain ⟨fs, hfs, hset⟩ := s.memory.setVar_of_slot? s.memory rfl dst x slot hslot
  refine ⟨{ s with memory := { s.memory with frames := fs } }, ?_, ?_⟩
  · rw [houtcome, h]
    show s.finish (s.memory.setVar dst x >>= fun n => .ok (.ahead n)) = _
    rw [hfs]
    rfl
  · exact (fs.read_eq_ok_iff dst x).mpr hset.self

theorem outcome_of_combine_error (c : Cause) (h : s.memory.combine a b f = .error c) :
    m.outcome s order (.binary f dst a b) = .error c s := by
  rw [outcome_binary m s order dst a b f hd, h]
  rfl

theorem stores_iff (x : Value) :
    m.Stores s order f dst a b x ↔ s.memory.combine a b f = .ok x := by
  refine ⟨?_, stores_of_combine m s order dst a b f hd x⟩
  intro h
  obtain ⟨s', hs', hx⟩ := h
  cases hc : s.memory.combine a b f with
  | error c =>
    rw [outcome_of_combine_error m s order dst a b f hd c hc] at hs'
    cases hs'
  | ok y =>
    obtain ⟨s'', hs'', hy⟩ := stores_of_combine m s order dst a b f hd y hc
    cases hs'.symm.trans hs''
    exact congrArg Except.ok (Except.ok.inj (hy.symm.trans hx))

theorem outcome_binary_error_iff (c : Cause) (s' : State) :
    m.outcome s order (.binary f dst a b) = .error c s' ↔
      s.memory.combine a b f = .error c ∧ s' = s := by
  cases hc : s.memory.combine a b f with
  | error c' =>
    rw [outcome_of_combine_error m s order dst a b f hd c' hc]
    constructor
    · intro h
      cases h
      exact ⟨rfl, rfl⟩
    · intro h
      rw [Except.error.inj h.1, h.2]
  | ok y =>
    obtain ⟨s'', hs'', _⟩ := stores_of_combine m s order dst a b f hd y hc
    rw [hs'']
    exact ⟨fun h => (nomatch h), fun h => (nomatch h.1)⟩

end

theorem outcome_jumpIf (verdict : Bool) (q : Nat) (hq : m.instr? q = some (.label name)) :
    m.outcome s order (.jumpIf verdict name a b) =
      match s.memory.verdict a b (Instr.jumpIf verdict name a b).opcode with
      | .ok e => .ok (if e = verdict then .goto q else .ahead) s
      | .error c => .error c s := by
  have htarget : m.labels.target name = .ok q :=
    (m.labels.target_eq_ok name q).mpr ((m.find?_label name q).mpr hq)
  have heffect : (Instr.jumpIf verdict name a b).effect m.labels s order
      = s.memory.verdict a b (Instr.jumpIf verdict name a b).opcode >>= fun e =>
          .ok ⟨s.memory, if e = verdict then .goto q else .ahead, none⟩ := by
    rw [Instr.effect, htarget, Memory.verdict]
    simp only [bind_assoc]
    rfl
  rw [outcome_eq_finish, heffect]
  cases s.memory.verdict a b (Instr.jumpIf verdict name a b).opcode <;> rfl

theorem outcome_jumpIf_undefined (verdict : Bool) (h : ∀ q, m.instr? q ≠ some (.label name)) :
    m.outcome s order (.jumpIf verdict name a b) = .error (.undefinedLabel name) s := by
  have hfind : m.labels.find? name = none := (m.find?_eq_none name).mpr h
  have htarget : m.labels.target name = .error (.undefinedLabel name) := by
    rw [Labels.target, hfind]
  rw [outcome_eq_finish, Instr.effect, htarget]
  rfl

end Machine

/-! ## equality -/

namespace Value

variable (x y : Value)

theorem equal?_comm : x.equal? y = y.equal? x := by
  unfold equal?
  have htypes : (x.ty = .nil ∨ y.ty = .nil ∨ x.ty = y.ty) ↔
      (y.ty = .nil ∨ x.ty = .nil ∨ y.ty = x.ty) := by
    rw [eq_comm (a := x.ty) (b := y.ty)]
    exact or_left_comm
  simp only [htypes, eq_comm (a := x)]

theorem equal?_eq_none : x.equal? y = none ↔ x.ty ≠ .nil ∧ y.ty ≠ .nil ∧ x.ty ≠ y.ty := by
  unfold equal?
  split
  · next h => exact ⟨fun hn => (nomatch hn), fun hn => absurd h (by simpa using hn)⟩
  · next h => exact ⟨fun _ => by simpa using h, fun _ => rfl⟩

theorem equal?_eq_true : x.equal? y = some true ↔ x = y := by
  unfold equal?
  constructor
  · intro h
    split at h
    · exact of_decide_eq_true (Option.some.inj h)
    · cases h
  · rintro rfl
    rw [if_pos (.inr (.inr rfl)), decide_eq_true rfl]

end Value

namespace Machine

section
variable (m : Machine) (s : State) (order : Nat) (dst : Var) (a b : Symbol)
  (hd : s.memory.frames.Declared dst.frame.place dst.name)
include hd

theorem stores_eq_iff (v : Bool) :
    m.Stores s order .eq dst a b (.bool v) ↔ s.memory.verdict a b .eq = .ok v := by
  rw [stores_iff m s order dst a b .eq hd, Memory.combine_eq_verdict, map_eq_ok]
  constructor
  · intro h
    obtain ⟨e, he, hv⟩ := h
    cases hv
    exact he
  · intro h
    exact ⟨v, h, rfl⟩

theorem outcome_eq_error_iff (c : Cause) (s' : State) :
    m.outcome s order (.binary .eq dst a b) = .error c s' ↔
      s.memory.verdict a b .eq = .error c ∧ s' = s := by
  rw [outcome_binary_error_iff m s order dst a b .eq hd, Memory.combine_eq_verdict]
  cases s.memory.verdict a b .eq with
  | ok e => exact ⟨fun h => (nomatch h.1), fun h => (nomatch h.1)⟩
  | error c' => exact ⟨fun h => ⟨by cases h.1; rfl, h.2⟩, fun h => ⟨by cases h.1; rfl, h.2⟩⟩

/-- a conditional jump follows the verdict that EQ would store -/
theorem stores_iff_jumpIf (verdict : Bool) (name : String) (q : Nat)
    (hq : m.instr? q = some (.label name)) (v : Bool) :
    m.Stores s order .eq dst a b (.bool v) ↔
      m.outcome s order (.jumpIf verdict name a b) =
        .ok (if v = verdict then .goto q else .ahead) s := by
  rw [stores_eq_iff m s order dst a b hd, outcome_jumpIf m s order name a b verdict q hq,
    s.memory.verdict_withOpcode a b .eq (Instr.jumpIf verdict name a b).opcode]
  cases s.memory.verdict a b .eq with
  | error c => exact ⟨fun h => (nomatch h), fun h => (nomatch h)⟩
  | ok e =>
    show Except.ok e = .ok v ↔
      EStateM.Result.ok (if e = verdict then Course.goto q else .ahead) s = .ok _ s
    rw [Except.ok.injEq, EStateM.Result.ok.injEq, and_iff_left rfl]
    -- to go there is another course than to go ahead, also where the label comes next
    cases e <;> cases v <;> cases verdict <;> simp

/-- and fails with the failure of EQ -/
theorem errors_withOpcode (verdict : Bool) (name : String) (q : Nat)
    (hq : m.instr? q = some (.label name)) :
    (∀ c s', m.outcome s order (.binary .eq dst a b) = .error c s' →
      m.outcome s order (.jumpIf verdict name a b)
        = .error (c.withOpcode (Instr.jumpIf verdict name a b).opcode) s) ∧
    (∀ c s', m.outcome s order (.jumpIf verdict name a b) = .error c s' →
      m.outcome s order (.binary .eq dst a b) = .error (c.withOpcode .eq) s) := by
  have hjump := outcome_jumpIf m s order name a b verdict q hq
  refine ⟨fun c s' h => ?_, fun c s' h => ?_⟩
  · obtain ⟨hc, _⟩ := (outcome_eq_error_iff m s order dst a b hd c s').mp h
    rw [hjump, s.memory.verdict_withOpcode a b .eq (Instr.jumpIf verdict name a b).opcode, hc]
    rfl
  · refine (outcome_eq_error_iff m s order dst a b hd _ s).mpr ⟨?_, rfl⟩
    rw [s.memory.verdict_withOpcode a b (Instr.jumpIf verdict name a b).opcode .eq]
    rw [hjump] at h
    cases hv : s.memory.verdict a b (Instr.jumpIf verdict name a b).opcode with
    | ok e => rw [hv] at h; cases h
    | error c' => rw [hv] at h; cases h; rfl

theorem stores_eq_of_values (x y : Value) (hx : s.memory.value a = .ok x)
    (hy : s.memory.value b = .ok y) (v : Bool) :
    m.Stores s order .eq dst a b (.bool v) ↔ x.equal? y = some v := by
  rw [stores_eq_iff m s order dst a b hd, Memory.verdict, hx, hy]
  show equal .eq x y = .ok v ↔ _
  rw [equal]
  cases x.equal? y with
  | none => constructor <;> intro h <;> cases h
  | some e => constructor <;> intro h <;> cases h <;> rfl

theorem outcome_eq_error_of_values (x y : Value) (hx : s.memory.value a = .ok x)
    (hy : s.memory.value b = .ok y) :
    m.outcome s order (.binary .eq dst a b) = .error (.operandTypes .eq [x.ty, y.ty]) s ↔
      x.equal? y = none := by
  rw [outcome_eq_error_iff m s order dst a b hd, Memory.verdict, hx, hy]
  show equal .eq x y = _ ∧ _ ↔ _
  rw [and_iff_left rfl, equal]
  cases x.equal? y with
  | none => exact ⟨fun _ => rfl, fun _ => rfl⟩
  | some e => constructor <;> intro h <;> cases h

end

/-- **One verdict for three opcodes.**  In any state in which the target of EQ is declared, and for
any two symbols: a conditional jump to a defined label goes there or ahead as EQ would store, and it
fails if EQ fails, with the same failure but for the opcode.  A label that is not defined is missed
whatever the symbols are.  Where the symbols have values, EQ stores the verdict on those, which is
symmetric, reflexive and transitive, missing for values of two types other than nil, and `true` for
identical values only. -/
theorem equality_shared (m : Machine) (s : State) (order : Nat) (dst : Var) (name : String)
    (a b : Symbol) (hd : s.memory.frames.Declared dst.frame.place dst.name) :
    let stores := fun v => m.Stores s order .eq dst a b (.bool v)
    let eq := m.outcome s order (.binary .eq dst a b)
    let jumpIf := fun verdict => m.outcome s order (.jumpIf verdict name a b)
    (∀ q, m.instr? q = some (.label name) →
      (∀ v, stores v ↔ jumpIf true = .ok (if v then .goto q else .ahead) s) ∧
      (∀ v, stores v ↔ jumpIf false = .ok (if v then .ahead else .goto q) s) ∧
      (∀ verdict c s', eq = .error c s' →
        jumpIf verdict = .error (c.withOpcode (Instr.jumpIf verdict name a b).opcode) s) ∧
      (∀ verdict c s', jumpIf verdict = .error c s' → eq = .error (c.withOpcode .eq) s)) ∧
    ((∀ q, m.instr? q ≠ some (.label name)) →
      ∀ verdict, jumpIf verdict = .error (.undefinedLabel name) s) ∧
    (∀ x y, s.memory.value a = .ok x → s.memory.value b = .ok y →
      (∀ v, stores v ↔ x.equal? y = some v) ∧
      (eq = .error (.operandTypes .eq [x.ty, y.ty]) s ↔ x.equal? y = none)) ∧
    (∀ x y : Value, x.equal? y = y.equal? x) ∧ (∀ x : Value, x.equal? x = some true) ∧
    (∀ x y : Value, x.equal? y = none ↔ x.ty ≠ .nil ∧ y.ty ≠ .nil ∧ x.ty ≠ y.ty) ∧
    (∀ x y : Value, x.equal? y = some true ↔ x = y) ∧
    (∀ x y z : Value, x.equal? y = some true → y.equal? z = some true →
      x.equal? z = some true) := by
  intro stores eq jumpIf
  refine ⟨fun q hq => ⟨fun v => ?_, fun v => ?_, fun verdict => ?_, fun verdict => ?_⟩,
    fun hno verdict => ?_, fun x y hx hy => ⟨?_, ?_⟩, Value.equal?_comm, fun x => ?_,
    Value.equal?_eq_none, Value.equal?_eq_true, fun x y z hxy hyz => ?_⟩
  · exact stores_iff_jumpIf m s order dst a b hd true name q hq v
  · rw [show (if v then Course.ahead else .goto q) = if v = false then .goto q else .ahead by
      cases v <;> rfl]
    exact stores_iff_jumpIf m s order dst a b hd false name q hq v
  · exact (errors_withOpcode m s order dst a b hd verdict name q hq).1
  · exact (errors_withOpcode m s order dst a b hd verdict name q hq).2
  · exact outcome_jumpIf_undefined m s order name a b verdict hno
  · exact stores_eq_of_values m s order dst a b hd x y hx hy
  · exact outcome_eq_error_of_values m s order dst a b hd x y hx hy
  · exact (x.equal?_eq_true x).mpr rfl
  · rw [(x.equal?_eq_true y).mp hxy]
    exact hyz

/-- a variable is compared, with nil and with an integer -/
def comparingMachine : Machine :=
  ⟨Program.ofInstrs [.defVar ⟨.gf, "x"⟩, .label "top",
    .jumpIf false "top" (.literal .nil) (.literal (.int 7))], ⟨[("top", 1)]⟩, rfl⟩

theorem equality_shared_nil :
    let m := comparingMachine
    let s := m.after 2 (State.start [] (Sink.new none) (Sink.new none))
    let x : Var := ⟨.gf, "x"⟩
    (m.step s).fault = none ∧ (m.step s).state.pc = 1 ∧
    m.Stores s 3 .eq x (.literal .nil) (.literal (.int 7)) (.bool false) ∧
    m.outcome s 3 (.jumpIf true "top" (.var x) (.literal (.int 7)))
      = .error (.access (.uninitialized x)) s ∧
    m.outcome s 3 (.binary .eq x (.var x) (.literal (.int 7)))
      = .error (.access (.uninitialized x)) s := by
  intro m s x
  have hd : s.memory.frames.Declared .gf "x" := ⟨.uninitialized, by decide⟩
  have hstep : m.step s = .ofResult (m.outcome s 3 (.jumpIf false "top" (.literal .nil)
      (.literal (.int 7)))) := m.step_eq_outcome s ⟨3, _⟩ (by decide) rfl
  obtain ⟨hlabel, _, hvalues, _⟩ :=
    m.equality_shared s 3 x "top" (.literal .nil) (.literal (.int 7)) hd
  obtain ⟨_, hneq, _⟩ := hlabel 1 (by decide)
  have hstores : m.Stores s 3 .eq x (.literal .nil) (.literal (.int 7)) (.bool false) :=
    ((hvalues .nil (.int 7) rfl rfl).1 false).mpr (by decide)
  have hjump : m.outcome s 3 (.jumpIf false "top" (.literal .nil) (.literal (.int 7)))
      = .ok (.goto 1) s := (hneq false).mp hstores
  obtain ⟨hlabel', _⟩ := m.equality_shared s 3 x "top" (.var x) (.literal (.int 7)) hd
  obtain ⟨_, _, _, hfails⟩ := hlabel' 1 (by decide)
  have hmissed : m.outcome s 3 (.jumpIf true "top" (.var x) (.literal (.int 7)))
      = .error (.access (.uninitialized x)) s := rfl
  rw [hstep, hjump]
  exact ⟨rfl, rfl, hstores, hmissed, hfails true _ _ hmissed⟩

end Machine
end IPPcode24
