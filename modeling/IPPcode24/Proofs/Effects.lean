import IPPcode24.Machine.Effect
import IPPcode24.Proofs.Access

/-!
# Effects and causes, instruction by instruction

* `Instr.HasEffect t s order i e`   the effects of instructions as a relation, with what each rests on
* `Instr.effect_eq_ok`              every effect is one of them
* `Cause.Possible t c`              the causes that an instruction can have
* `Cause.OfValues c`                those that lie in the values alone
* `Cause.Explained t fs c`          the same, and what the cause says of the frames is the case
* `Instr.effect_explained`          no instruction fails with another one
-/

namespace IPPcode24

theorem Labels.target_eq_ok (t : Labels) (name : String) (i : Nat) :
    t.target name = .ok i ↔ t.find? name = some i := by
  rw [Labels.target]
  cases t.find? name with
  | some j => exact ⟨fun h => by cases h; rfl, fun h => by cases h; rfl⟩
  | none => exact ⟨fun h => (nomatch h), fun h => (nomatch h)⟩

namespace Memory

theorem setVar_eq_ok (m n : Memory) (dst : Var) (x : Value) :
    m.setVar dst x = .ok n ↔ ∃ fs, m.frames.assign dst x = .ok fs ∧ n = { m with frames := fs } := by
  rw [setVar]
  cases m.frames.assign dst x with
  | ok fs => exact ⟨fun h => ⟨fs, rfl, by cases h; rfl⟩, fun ⟨_, hf, h⟩ => by cases hf; rw [h]; rfl⟩
  | error e => exact ⟨fun h => (nomatch h), fun ⟨_, hf, _⟩ => (nomatch hf)⟩

theorem popCall_eq_ok (m n : Memory) (i : Nat) :
    m.popCall = .ok (i, n) ↔ ∃ calls, m.calls = i :: calls ∧ n = { m with calls := calls } := by
  rw [popCall]
  cases m.calls with
  | nil => exact ⟨fun h => (nomatch h), fun ⟨_, hc, _⟩ => (nomatch hc)⟩
  | cons j calls =>
    exact ⟨fun h => ⟨calls, by cases h; exact ⟨rfl, rfl⟩⟩, fun ⟨_, hc, h⟩ => by cases hc; rw [h]⟩

theorem popData_eq_ok (m n : Memory) (x : Value) :
    m.popData = .ok (x, n) ↔ ∃ data, m.data = x :: data ∧ n = { m with data := data } := by
  rw [popData]
  cases m.data with
  | nil => exact ⟨fun h => (nomatch h), fun ⟨_, hd, _⟩ => (nomatch hd)⟩
  | cons y data =>
    exact ⟨fun h => ⟨data, by cases h; exact ⟨rfl, rfl⟩⟩, fun ⟨_, hd, h⟩ => by cases hd; rw [h]⟩

end Memory

/-! ## the effects -/

/-- what an instruction that is in order does: one rule for each constructor -/
inductive Instr.HasEffect (t : Labels) (s : State) (order : Nat) : Instr → Effect → Prop where
  | createFrame :
    HasEffect t s order .createFrame (.ahead { s.memory with frames := s.memory.frames.create })
  | pushFrame (fs : Frames) (hf : s.memory.frames.push = .ok fs) :
    HasEffect t s order .pushFrame (.ahead { s.memory with frames := fs })
  | popFrame (fs : Frames) (hf : s.memory.frames.pop = .ok fs) :
    HasEffect t s order .popFrame (.ahead { s.memory with frames := fs })
  | defVar (v : Var) (fs : Frames) (hf : s.memory.frames.declare v = .ok fs) :
    HasEffect t s order (.defVar v) (.ahead { s.memory with frames := fs })
  | call (name : String) (i : Nat) (hi : t.find? name = some i) :
    HasEffect t s order (.call name) ⟨s.memory.pushCall (s.pc + 1), .goto i, none⟩
  | ret (i : Nat) (calls : List Nat) (hc : s.memory.calls = i :: calls) :
    HasEffect t s order .ret ⟨{ s.memory with calls := calls }, .goto i, none⟩
  | pushs (a : Symbol) (x : Value) (hx : s.memory.value a = .ok x) :
    HasEffect t s order (.pushs a) (.ahead (s.memory.pushData x))
  | pops (dst : Var) (x : Value) (data : List Value) (fs : Frames)
      (ht : s.memory.checkTarget dst = .ok ()) (hd : s.memory.data = x :: data)
      (hf : s.memory.frames.assign dst x = .ok fs) :
    HasEffect t s order (.pops dst) (.ahead { s.memory with frames := fs, data := data })
  | unary (f : Unary) (dst : Var) (a : Symbol) (x y : Value) (fs : Frames)
      (ht : s.memory.checkTarget dst = .ok ()) (hx : s.memory.value a = .ok x)
      (hy : f.apply x = .ok y) (hf : s.memory.frames.assign dst y = .ok fs) :
    HasEffect t s order (.unary f dst a) (.ahead { s.memory with frames := fs })
  | binary (f : Binary) (dst : Var) (a b : Symbol) (x y z : Value) (fs : Frames)
      (ht : s.memory.checkTarget dst = .ok ()) (hx : s.memory.value a = .ok x)
      (hy : s.memory.value b = .ok y) (hz : f.apply x y = .ok z)
      (hf : s.memory.frames.assign dst z = .ok fs) :
    HasEffect t s order (.binary f dst a b) (.ahead { s.memory with frames := fs })
  | setChar (dst : Var) (a b : Symbol) (x y z w : Value) (fs : Frames)
      (ht : s.memory.checkTarget dst = .ok ()) (hx : s.memory.frames.read dst = .ok x)
      (hy : s.memory.value a = .ok y) (hz : s.memory.value b = .ok z)
      (hw : IPPcode24.setChar x y z = .ok w) (hf : s.memory.frames.assign dst w = .ok fs) :
    HasEffect t s order (.setChar dst a b) (.ahead { s.memory with frames := fs })
  | type (dst : Var) (a : Symbol) (name : String) (fs : Frames)
      (ht : s.memory.checkTarget dst = .ok ()) (hn : s.memory.typeName a = .ok name)
      (hf : s.memory.frames.assign dst (.string name) = .ok fs) :
    HasEffect t s order (.type dst a) (.ahead { s.memory with frames := fs })
  | read (dst : Var) (ty : Ty) (fs : Frames) (ht : s.memory.checkTarget dst = .ok ())
      (hf : s.memory.frames.assign dst (Input.read ty s.memory.input).1 = .ok fs) :
    HasEffect t s order (.read dst ty)
      (.ahead { s.memory with frames := fs, input := (Input.read ty s.memory.input).2 })
  | print (channel : Channel) (a : Symbol) (x : Value) (hx : s.memory.value a = .ok x) :
    HasEffect t s order (.print channel a) ⟨s.memory, .ahead, some (channel, x.text)⟩
  | label (name : String) : HasEffect t s order (.label name) (.ahead s.memory)
  | jump (name : String) (i : Nat) (hi : t.find? name = some i) :
    HasEffect t s order (.jump name) ⟨s.memory, .goto i, none⟩
  | jumpIf (verdict : Bool) (name : String) (a b : Symbol) (i : Nat) (x y : Value) (e : Bool)
      (hi : t.find? name = some i) (hx : s.memory.value a = .ok x) (hy : s.memory.value b = .ok y)
      (he : equal (Instr.jumpIf verdict name a b).opcode x y = .ok e) :
    HasEffect t s order (.jumpIf verdict name a b)
      ⟨s.memory, if e = verdict then .goto i else .ahead, none⟩
  | exit (a : Symbol) (x : Value) (code : Fin 10) (hx : s.memory.value a = .ok x)
      (hc : exitCode x = .ok code) : HasEffect t s order (.exit a) ⟨s.memory, .stop code, none⟩
  | brk : HasEffect t s order .brk ⟨s.memory, .ahead, some (.stderr, s.report order)⟩

/-- the effect of an instruction is one that the rules give it -/
theorem Instr.effect_eq_ok (t : Labels) (s : State) (order : Nat) (i : Instr) (e : Effect)
    (h : i.effect t s order = .ok e) : HasEffect t s order i e := by
  cases i <;> simp only [Instr.effect, bind_eq_ok, ofAccess_eq_ok, Labels.target_eq_ok] at h
  case createFrame => cases h; exact .createFrame
  case pushFrame =>
    obtain ⟨fs, hf, h⟩ := h
    cases h; exact .pushFrame fs hf
  case popFrame =>
    obtain ⟨fs, hf, h⟩ := h
    cases h; exact .popFrame fs hf
  case defVar v =>
    obtain ⟨fs, hf, h⟩ := h
    cases h; exact .defVar v fs hf
  case call name =>
    obtain ⟨i, hi, h⟩ := h
    cases h; exact .call name i hi
  case ret =>
    obtain ⟨⟨i, n⟩, hp, h⟩ := h
    obtain ⟨calls, hc, hn⟩ := (Memory.popCall_eq_ok _ _ _).mp hp
    rw [hn] at h
    cases h; exact .ret i calls hc
  case pushs a =>
    obtain ⟨x, hx, h⟩ := h
    cases h; exact .pushs a x hx
  case pops dst =>
    obtain ⟨_, ht, ⟨x, n⟩, hp, m, hm, h⟩ := h
    obtain ⟨data, hd, hn⟩ := (Memory.popData_eq_ok _ _ _).mp hp
    rw [hn] at hm
    obtain ⟨fs, hf, hm⟩ := (Memory.setVar_eq_ok _ _ _ _).mp hm
    rw [hm] at h
    cases h; exact .pops dst x data fs ht hd hf
  case unary f dst a =>
    obtain ⟨_, ht, x, hx, y, hy, m, hm, h⟩ := h
    obtain ⟨fs, hf, hm⟩ := (Memory.setVar_eq_ok _ _ _ _).mp hm
    rw [hm] at h
    cases h; exact .unary f dst a x y fs ht hx hy hf
  case binary f dst a b =>
    obtain ⟨_, ht, x, hx, y, hy, z, hz, m, hm, h⟩ := h
    obtain ⟨fs, hf, hm⟩ := (Memory.setVar_eq_ok _ _ _ _).mp hm
    rw [hm] at h
    cases h; exact .binary f dst a b x y z fs ht hx hy hz hf
  case setChar dst a b =>
    obtain ⟨_, ht, x, hx, y, hy, z, hz, w, hw, m, hm, h⟩ := h
    obtain ⟨fs, hf, hm⟩ := (Memory.setVar_eq_ok _ _ _ _).mp hm
    rw [hm] at h
    cases h; exact .setChar dst a b x y z w fs ht hx hy hz hw hf
  case type dst a =>
    obtain ⟨_, ht, name, hn, m, hm, h⟩ := h
    obtain ⟨fs, hf, hm⟩ := (Memory.setVar_eq_ok _ _ _ _).mp hm
    rw [hm] at h
    cases h; exact .type dst a name fs ht hn hf
  case read dst ty =>
    obtain ⟨_, ht, m, hm, h⟩ := h
    obtain ⟨fs, hf, hm⟩ := (Memory.setVar_eq_ok _ _ _ _).mp hm
    rw [hm] at h
    cases h; exact .read dst ty fs ht hf
  case print channel a =>
    obtain ⟨x, hx, h⟩ := h
    cases h; exact .print channel a x hx
  case label name => cases h; exact .label name
  case jump name =>
    obtain ⟨i, hi, h⟩ := h
    cases h; exact .jump name i hi
  case jumpIf verdict name a b =>
    obtain ⟨i, hi, x, hx, y, hy, e, he, h⟩ := h
    cases h; exact .jumpIf verdict name a b i x y e hi hx hy he
  case exit a =>
    obtain ⟨x, hx, code, hc, h⟩ := h
    cases h; exact .exit a x code hx hc
  case brk => cases h; exact .brk

/-! ## failures -/

/-- not the failure of a frame that is always there -/
def AccessError.Possible (e : AccessError) : Prop := e ≠ .missingFrame .gf

/-- the causes that an instruction can have: none is about the shape of the instruction or the
labels of the program, and a label is undefined only where it is not found -/
def Cause.Possible (t : Labels) : Cause → Prop
  | .malformed _ | .duplicateLabel _ | .channelFull => False
  | .access e => e.Possible
  | .undefinedLabel name => t.find? name = none
  | _ => True

/-- the same, and what is said of the frames is the case -/
def Cause.Explained (t : Labels) (fs : Frames) : Cause → Prop
  | .access e => e.Holds fs
  | c => c.Possible t

theorem Cause.Explained.possible (t : Labels) (fs : Frames) (c : Cause) (h : c.Explained t fs) :
    c.Possible t := by
  cases c with
  | access e =>
    -- the global frame is never missing
    rintro rfl
    cases (h : fs.frame? .gf = none)
  | _ => exact h

/-- the causes that lie in the values alone -/
def Cause.OfValues : Cause → Prop
  | .operandTypes _ _ | .divisionByZero | .exitCode _ | .charCode _ | .index _ _
  | .emptyReplacement => True
  | _ => False

theorem Cause.OfValues.explained (t : Labels) (fs : Frames) (c : Cause) (h : c.OfValues) :
    c.Explained t fs := by
  cases c <;> trivial

/-! ### computations on values -/

theorem equal_fails (op : Opcode) (a b : Value) : FailsWith Cause.OfValues (equal op a b) := by
  rw [equal]
  cases a.equal? b with
  | some e => exact FailsWith.ok
  | none => exact FailsWith.error trivial

theorem order_fails (op : Opcode) (a b : Value) : FailsWith Cause.OfValues (order op a b) := by
  rw [order]
  cases a.compare? b with
  | some o => exact FailsWith.ok
  | none => exact FailsWith.error trivial

theorem position_fails (i : Int64) (length : Nat) :
    FailsWith Cause.OfValues (position i length) := by
  rw [position]
  split
  · exact FailsWith.ok
  · exact FailsWith.error trivial

theorem charAt_fails (s : String) (i : Int64) : FailsWith Cause.OfValues (charAt s i) := by
  refine FailsWith.bind (position_fails i s.length) fun k _ => ?_
  cases s.toList[k]? with
  | some c => exact FailsWith.ok
  | none => exact FailsWith.error trivial

theorem replacement_fails (s : String) : FailsWith Cause.OfValues (replacement s) := by
  rw [replacement]
  cases s.toList with
  | cons c _ => exact FailsWith.ok
  | nil => exact FailsWith.error trivial

theorem setChar_fails (x y z : Value) : FailsWith Cause.OfValues (setChar x y z) := by
  unfold setChar
  split
  · refine FailsWith.bind (position_fails _ _) fun k _ => ?_
    exact FailsWith.bind (replacement_fails _) fun c _ => FailsWith.ok
  · exact FailsWith.error trivial

theorem exitCode_fails (x : Value) : FailsWith Cause.OfValues (exitCode x) := by
  unfold exitCode
  split
  · split
    · exact FailsWith.ok
    · exact FailsWith.error trivial
  · exact FailsWith.error trivial

theorem Unary.apply_fails (f : Unary) (x : Value) : FailsWith Cause.OfValues (f.apply x) := by
  unfold Unary.apply
  split
  · exact FailsWith.ok
  · exact FailsWith.ok
  · split
    · exact FailsWith.ok
    · exact FailsWith.error trivial
  · exact FailsWith.ok
  · exact FailsWith.error trivial

theorem Binary.apply_fails (f : Binary) (x y : Value) :
    FailsWith Cause.OfValues (f.apply x y) := by
  unfold Binary.apply
  split
  case h_4 =>
    split
    · exact FailsWith.error trivial
    · exact FailsWith.ok
  case h_5 => exact FailsWith.map (order_fails _ _ _)
  case h_6 => exact FailsWith.map (order_fails _ _ _)
  case h_7 => exact FailsWith.map (equal_fails _ _ _)
  case h_10 => exact FailsWith.map (charAt_fails _ _)
  case h_12 => exact FailsWith.map (charAt_fails _ _)
  case h_13 => exact FailsWith.error trivial
  all_goals exact FailsWith.ok

/-! ### labels and the memory -/

theorem Labels.target_fails (t : Labels) (fs : Frames) (name : String) :
    FailsWith (Cause.Explained t fs) (t.target name) := by
  rw [Labels.target]
  cases h : t.find? name with
  | some i => exact FailsWith.ok
  | none => exact FailsWith.error h

namespace Memory

section
variable {t : Labels} (m : Memory)

theorem checkTarget_fails (dst : Var) : FailsWith (Cause.Explained t m.frames) (m.checkTarget dst) :=
  FailsWith.access (m.frames.require_fails dst)

theorem value_fails (a : Symbol) : FailsWith (Cause.Explained t m.frames) (m.value a) := by
  cases a with
  | var v => exact FailsWith.access (m.frames.read_fails v)
  | literal v => exact FailsWith.ok

theorem typeName_fails (a : Symbol) : FailsWith (Cause.Explained t m.frames) (m.typeName a) := by
  cases a with
  | literal v => exact FailsWith.ok
  | var v =>
    refine FailsWith.bind (FailsWith.access (m.frames.slot_fails v)) fun s _ => ?_
    cases s with
    | uninitialized => exact FailsWith.ok
    | holds x => exact FailsWith.ok

theorem popCall_fails : FailsWith (Cause.Explained t m.frames) m.popCall := by
  rw [popCall]
  cases m.calls with
  | cons i calls => exact FailsWith.ok
  | nil => exact FailsWith.error trivial

theorem popData_fails : FailsWith (Cause.Explained t m.frames) m.popData := by
  rw [popData]
  cases m.data with
  | cons x data => exact FailsWith.ok
  | nil => exact FailsWith.error trivial

theorem setVar_fails (dst : Var) (x : Value) :
    FailsWith (Cause.Explained t m.frames) (m.setVar dst x) :=
  FailsWith.map (FailsWith.access (m.frames.assign_fails dst x))

/-- what a writing instruction does in the end -/
theorem setVar_ahead_fails (dst : Var) (x : Value) :
    FailsWith (Cause.Explained t m.frames) (m.setVar dst x >>= fun n => .ok (Effect.ahead n)) :=
  FailsWith.bind (m.setVar_fails dst x) fun _ _ => FailsWith.ok

end
end Memory

/-- **What an instruction fails with is explained by the labels and the frames.** -/
theorem Instr.effect_explained (t : Labels) (s : State) (order : Nat) (i : Instr) :
    FailsWith (Cause.Explained t s.memory.frames) (i.effect t s order) := by
  let m := s.memory
  have hvalues : ∀ {α : Type} {r : Except Cause α}, FailsWith Cause.OfValues r →
      FailsWith (Cause.Explained t m.frames) r := FailsWith.mono (Cause.OfValues.explained t m.frames)
  cases i with
  | createFrame => exact FailsWith.ok
  | pushFrame =>
    exact FailsWith.bind (FailsWith.access m.frames.push_fails) fun _ _ => FailsWith.ok
  | popFrame =>
    exact FailsWith.bind (FailsWith.access m.frames.pop_fails) fun _ _ => FailsWith.ok
  | defVar v =>
    exact FailsWith.bind (FailsWith.access (m.frames.declare_fails v))
      fun _ _ => FailsWith.ok
  | call name => exact FailsWith.bind (t.target_fails m.frames name) fun _ _ => FailsWith.ok
  | ret => exact FailsWith.bind m.popCall_fails fun _ _ => FailsWith.ok
  | pushs a => exact FailsWith.bind (m.value_fails a) fun _ _ => FailsWith.ok
  | pops dst =>
    refine FailsWith.bind (m.checkTarget_fails dst) fun _ _ => ?_
    refine FailsWith.bind m.popData_fails fun p hp => ?_
    -- the frames are those from before the value was taken
    obtain ⟨data, _, hn⟩ := (Memory.popData_eq_ok _ _ _).mp hp
    rw [show m.frames = p.2.frames by rw [hn]]
    exact p.2.setVar_ahead_fails dst p.1
  | unary f dst a =>
    refine FailsWith.bind (m.checkTarget_fails dst) fun _ _ => ?_
    refine FailsWith.bind (m.value_fails a) fun x _ => ?_
    refine FailsWith.bind (hvalues (f.apply_fails x)) fun y _ => ?_
    exact m.setVar_ahead_fails dst y
  | binary f dst a b =>
    refine FailsWith.bind (m.checkTarget_fails dst) fun _ _ => ?_
    refine FailsWith.bind (m.value_fails a) fun x _ => ?_
    refine FailsWith.bind (m.value_fails b) fun y _ => ?_
    refine FailsWith.bind (hvalues (f.apply_fails x y)) fun z _ => ?_
    exact m.setVar_ahead_fails dst z
  | setChar dst a b =>
    refine FailsWith.bind (m.checkTarget_fails dst) fun _ _ => ?_
    refine FailsWith.bind (FailsWith.access (m.frames.read_fails dst)) fun x _ => ?_
    refine FailsWith.bind (m.value_fails a) fun y _ => ?_
    refine FailsWith.bind (m.value_fails b) fun z _ => ?_
    refine FailsWith.bind (hvalues (setChar_fails x y z)) fun w _ => ?_
    exact m.setVar_ahead_fails dst w
  | type dst a =>
    refine FailsWith.bind (m.checkTarget_fails dst) fun _ _ => ?_
    refine FailsWith.bind (m.typeName_fails a) fun name _ => ?_
    exact m.setVar_ahead_fails dst _
  | read dst ty =>
    refine FailsWith.bind (m.checkTarget_fails dst) fun _ _ => ?_
    exact Memory.setVar_ahead_fails _ dst _
  | print channel a => exact FailsWith.bind (m.value_fails a) fun _ _ => FailsWith.ok
  | label name => exact FailsWith.ok
  | jump name => exact FailsWith.bind (t.target_fails m.frames name) fun _ _ => FailsWith.ok
  | jumpIf verdict name a b =>
    refine FailsWith.bind (t.target_fails m.frames name) fun i _ => ?_
    refine FailsWith.bind (m.value_fails a) fun x _ => ?_
    refine FailsWith.bind (m.value_fails b) fun y _ => ?_
    exact FailsWith.bind (hvalues (equal_fails _ x y)) fun _ _ => FailsWith.ok
  | exit a =>
    refine FailsWith.bind (m.value_fails a) fun x _ => ?_
    exact FailsWith.bind (hvalues (exitCode_fails x)) fun _ _ => FailsWith.ok
  | brk => exact FailsWith.ok

theorem Instr.effect_fails (t : Labels) (s : State) (order : Nat) (i : Instr) :
    FailsWith (Cause.Possible t) (i.effect t s order) :=
  fun c h => (i.effect_explained t s order c h).possible

end IPPcode24
