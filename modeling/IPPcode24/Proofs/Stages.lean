import IPPcode24.Proofs.Acceptance
import IPPcode24.Proofs.Declarations

/-!
# The stages of an instruction

An instruction that sets a variable is checked in stages, and the first stage that fails is reported.
Each stage is a question to the memory before the step, and the result is made of that memory too.

* `Frames.undeclared?`, `uninitialized?`, `Memory.unresolved?`   why variables and symbols are not to
                                 be had
* `Instr.failure m i`            what fails in a stage, whatever the others say
* `Instr.result? m i`, `taken`   the value for the target, and the memory once it is taken
* `Instr.guarded_effect`         **the effect of an instruction is guarded by its stages**

Main statement, `Machine.step_staged`.
-/

namespace IPPcode24

/-! ## what instructions ask of the memory -/

namespace Frames

/-- why a variable cannot be set -/
def undeclared? (fs : Frames) (v : Var) : Option Cause :=
  match fs.at? v.frame.place with
  | none => some (.access (.missingFrame v.frame))
  | some f =>
    match f.get? v.name with
    | none => some (.access (.undeclared v))
    | some _ => none

/-- why a variable that is declared has no value -/
def uninitialized? (fs : Frames) (v : Var) : Option Cause :=
  match fs.slot? v.frame.place v.name with
  | some .uninitialized => some (.access (.uninitialized v))
  | _ => none

end Frames

namespace Memory

/-- why a symbol has no value -/
def unresolved? (m : Memory) : Symbol → Option Cause
  | .literal _ => none
  | .var v => (m.frames.undeclared? v).or (m.frames.uninitialized? v)

def value? (m : Memory) : Symbol → Option Value
  | .literal x => some x
  | .var v =>
    match m.frames.slot? v.frame.place v.name with
    | some (.holds x) => some x
    | _ => none

/-- why a symbol has no type; a variable that holds nothing has the empty one -/
def untyped? (m : Memory) : Symbol → Option Cause
  | .literal _ => none
  | .var v => m.frames.undeclared? v

def typeName? (m : Memory) : Symbol → Option String
  | .literal x => some x.ty.name
  | .var v =>
    match m.frames.slot? v.frame.place v.name with
    | some (.holds x) => some x.ty.name
    | some .uninitialized => some ""
    | none => none

end Memory

namespace Instr

def target? (i : Instr) : Option Var :=
  match i.frameUse with
  | .sets dst => some dst
  | _ => none

def sources : Instr → List Symbol
  | .unary _ _ a | .type _ a => [a]
  | .binary _ _ a b | .setChar _ a b => [a, b]
  | _ => []

/-- the values that the result is computed from; SETCHAR changes the one of its target -/
def values? (m : Memory) : Instr → Option (List Value)
  | .unary _ _ a => do return [← m.value? a]
  | .binary _ _ a b => do return [← m.value? a, ← m.value? b]
  | .setChar dst a b => do return [← m.value? (.var dst), ← m.value? a, ← m.value? b]
  | _ => some []

/-- what fails in a stage.  The memory is the one before the step, in every stage. -/
def failure (m : Memory) : Instr → Stage → Option Cause
  | i, .target => i.target?.bind m.frames.undeclared?
  | .setChar dst _ _, .current => m.frames.uninitialized? dst
  | _, .current => none
  | .type _ a, .first => m.untyped? a
  | i, .first => i.sources[0]?.bind m.unresolved?
  | i, .second => i.sources[1]?.bind m.unresolved?
  | .pops _, .types => if m.data = [] then some .emptyDataStack else none
  | i, stage => (i.values? m).bind fun xs => i.opcode.fault? xs stage

def result? (m : Memory) : Instr → Option Value
  | .pops _ => m.data.head?
  | .read _ ty => some (Input.read ty m.input).1
  | .type _ a => (m.typeName? a).map .string
  | i => (i.values? m).bind i.opcode.make?

/-- the memory without what an instruction takes from the data stack or from the input -/
def taken (m : Memory) : Instr → Memory
  | .pops _ => { m with data := m.data.tail }
  | .read _ ty => { m with input := (Input.read ty m.input).2 }
  | _ => m

end Instr

/-! ## the memory -/

theorem ofAccess_bind {α β : Type} (r : Except AccessError α) (k : α → Except AccessError β) :
    ofAccess (r >>= k) = ofAccess r >>= fun a => ofAccess (k a) := by
  cases r <;> rfl

theorem Frames.undeclared?_of_slot? (fs : Frames) (v : Var) (s : Slot)
    (h : fs.slot? v.frame.place v.name = some s) : fs.undeclared? v = none := by
  obtain ⟨f, hf, hs⟩ := Option.bind_eq_some_iff.mp h
  simp only [undeclared?, hf, hs]

theorem Frames.setsOnly_of_assign (fs gs : Frames) (v : Var) (x : Value)
    (h : fs.assign v x = .ok gs) : fs.SetsOnly gs v (.holds x) := by
  obtain ⟨f, hf, rfl⟩ := (fs.assign_eq_ok gs v x).mp h
  exact fs.setsOnly_replace v _ f hf

theorem Frames.exists_assign (fs : Frames) (v : Var) (x : Value)
    (h : fs.Declared v.frame.place v.name) : ∃ gs, fs.assign v x = .ok gs := by
  obtain ⟨_, hslot⟩ := h
  obtain ⟨f, hf, _⟩ := Option.bind_eq_some_iff.mp hslot
  rw [fs.at?_place] at hf
  exact ⟨_, (fs.assign_eq_ok _ v x).mpr ⟨f, hf, rfl⟩⟩

namespace Memory

variable (m : Memory)

theorem guarded_slot (v : Var) :
    Guarded (m.frames.undeclared? v) (fun s => m.frames.slot? v.frame.place v.name = some s)
      (ofAccess (m.frames.slot v)) := by
  cases hf : m.frames.at? v.frame.place with
  | none =>
    simp only [Frames.undeclared?, Frames.slot, Frames.frame, ← m.frames.at?_place, hf]
    exact .error _
  | some f =>
    cases hs : f.get? v.name with
    | none =>
      simp only [Frames.undeclared?, Frames.slot, Frames.frame, ← m.frames.at?_place, hf, hs, bind,
        Except.bind]
      exact .error _
    | some s =>
      have hslot : m.frames.slot? v.frame.place v.name = some s := by
        rw [Frames.slot?, hf, Option.bind_some, hs]
      rw [m.frames.undeclared?_of_slot? v s hslot, (m.frames.slot_eq_ok_iff v s).mpr hslot]
      exact .ok s hslot

theorem guarded_checkTarget (dst : Var) :
    Guarded (m.frames.undeclared? dst)
      (fun _ => ∃ s, m.frames.slot? dst.frame.place dst.name = some s) (m.checkTarget dst) := by
  rw [checkTarget, Frames.require, ofAccess_bind]
  exact (m.guarded_slot dst).bind_ok fun s hs => ⟨(), rfl, s, hs⟩

theorem checkTarget_of_declared (dst : Var)
    (h : m.frames.Declared dst.frame.place dst.name) : m.checkTarget dst = .ok () := by
  obtain ⟨slot, hslot⟩ := h
  obtain ⟨_, ht, _⟩ := (m.guarded_checkTarget dst).passes
    (m.frames.undeclared?_of_slot? dst slot hslot)
  exact ht

theorem guarded_read (v : Var) :
    Guarded ((m.frames.undeclared? v).or (m.frames.uninitialized? v))
      (fun x => m.value? (.var v) = some x) (ofAccess (m.frames.read v)) := by
  rw [Frames.read, ofAccess_bind]
  refine (m.guarded_slot v).bind fun s hs => ?_
  simp only [Frames.uninitialized?, value?, hs]
  cases s with
  | uninitialized => exact .error _
  | holds x => exact .ok x rfl

theorem guarded_value (a : Symbol) :
    Guarded (m.unresolved? a) (fun x => m.value? a = some x) (m.value a) := by
  cases a with
  | literal x => exact .ok x rfl
  | var v => exact m.guarded_read v

theorem guarded_typeName (a : Symbol) :
    Guarded (m.untyped? a) (fun name => m.typeName? a = some name) (m.typeName a) := by
  cases a with
  | literal x => exact .ok _ rfl
  | var v =>
    refine (m.guarded_slot v).bind_ok fun s hs => ?_
    simp only [typeName?, hs]
    cases s with
    | uninitialized => exact ⟨_, rfl, rfl⟩
    | holds x => exact ⟨_, rfl, rfl⟩

theorem guarded_popData :
    Guarded (if m.data = [] then some .emptyDataStack else none)
      (fun p => m.data.head? = some p.1 ∧ p.2 = { m with data := m.data.tail }) m.popData := by
  rw [popData]
  cases m.data with
  | nil => exact .error _
  | cons x data =>
    refine .ok _ ?_
    exact ⟨rfl, rfl⟩

/-- a variable that is declared can be set, whatever has become of the rest of the memory -/
theorem setVar_of_slot? (n : Memory) (hn : n.frames = m.frames) (dst : Var) (x : Value) (s : Slot)
    (h : m.frames.slot? dst.frame.place dst.name = some s) :
    ∃ fs, n.setVar dst x = .ok { n with frames := fs } ∧ m.frames.SetsOnly fs dst (.holds x) := by
  obtain ⟨fs, hfs⟩ := m.frames.exists_assign dst x ⟨s, h⟩
  refine ⟨fs, (setVar_eq_ok n _ dst x).mpr ⟨fs, ?_, rfl⟩, m.frames.setsOnly_of_assign fs dst x hfs⟩
  rw [hn, hfs]

end Memory

/-! ## instructions -/

namespace Instr

/-- the effect on the memory: a value for the target, and nothing else in any frame -/
def Sets (m : Memory) (i : Instr) (dst : Var) (e : Effect) : Prop :=
  ∃ x fs, i.result? m = some x ∧ m.frames.SetsOnly fs dst (.holds x) ∧
    e = .ahead { i.taken m with frames := fs }

theorem exists_sets (m : Memory) (i : Instr) (dst : Var) (x : Value) (s : Slot)
    (hs : m.frames.slot? dst.frame.place dst.name = some s) (hx : i.result? m = some x) :
    ∃ e, ((i.taken m).setVar dst x >>= fun n => .ok (.ahead n)) = .ok e ∧ i.Sets m dst e := by
  have hframes : (i.taken m).frames = m.frames := by cases i <;> rfl
  obtain ⟨fs, hfs, hset⟩ := m.setVar_of_slot? (i.taken m) hframes dst x s hs
  rw [hfs]
  exact ⟨_, rfl, x, fs, hx, hset, rfl⟩

/-- the opcode makes the result of the values of operands -/
def computes : Instr → Bool
  | .unary _ _ _ | .binary _ _ _ _ | .setChar _ _ _ => true
  | _ => false

/-- once the values are there, only they count -/
theorem guarded_of_computes (m : Memory) (i : Instr) (dst : Var) (v : Slot) (xs : List Value)
    (r : Except Cause Value) (hi : i.computes = true)
    (hv : m.frames.slot? dst.frame.place dst.name = some v) (hx : i.values? m = some xs)
    (hr : Guarded (Stage.ofValues.findSome? (i.opcode.fault? xs))
      (fun y => i.opcode.make? xs = some y) r) :
    Guarded (Stage.ofValues.findSome? (i.failure m)) (i.Sets m dst)
      (r >>= fun y => m.setVar dst y >>= fun n => .ok (.ahead n)) := by
  have hforms : Stage.ofValues.findSome? (i.failure m)
        = Stage.ofValues.findSome? (fun s => (i.values? m).bind fun xs => i.opcode.fault? xs s) ∧
      i.result? m = (i.values? m).bind i.opcode.make? ∧ i.taken m = m := by
    cases i with
    | unary f d a | binary f d a b | setChar d a b => exact ⟨rfl, rfl, rfl⟩
    | _ => cases hi
  obtain ⟨hfailure, hresult, htaken⟩ := hforms
  rw [hx, Option.bind_some] at hresult
  simp only [hfailure, hx, Option.bind_some]
  refine hr.bind_ok fun y hy => ?_
  have hset := i.exists_sets m dst y v hv (hresult.trans hy)
  rwa [htaken] at hset

/-- **The effect of an instruction is guarded by its stages.** -/
theorem guarded_effect (t : Labels) (s : State) (order : Nat) (i : Instr) (dst : Var)
    (hi : i.frameUse = .sets dst) :
    Guarded (Stage.all.findSome? (i.failure s.memory)) (i.Sets s.memory dst)
      (i.effect t s order) := by
  let m := s.memory
  rw [Stage.findSome?_all]
  cases i with
  | pops d =>
    cases hi
    refine (m.guarded_checkTarget dst).bind fun _ ⟨v, hv⟩ => ?_
    rw [Stage.findSome?_ofValues]
    refine m.guarded_popData.or_none.bind_ok fun ⟨x, n⟩ ⟨hx, hn⟩ => ?_
    cases hn
    exact exists_sets m (.pops dst) dst x v hv hx
  | unary f d a =>
    cases hi
    refine (m.guarded_checkTarget dst).bind fun _ ⟨v, hv⟩ => ?_
    refine (m.guarded_value a).bind fun x hx => ?_
    have hxs : (Instr.unary f dst a).values? m = some [x] := by simp [values?, hx]
    exact guarded_of_computes m _ dst v _ _ rfl hv hxs (f.guarded_apply x)
  | binary f d a b =>
    cases hi
    refine (m.guarded_checkTarget dst).bind fun _ ⟨v, hv⟩ => ?_
    refine (m.guarded_value a).bind fun x hx => ?_
    refine (m.guarded_value b).bind fun y hy => ?_
    have hxs : (Instr.binary f dst a b).values? m = some [x, y] := by simp [values?, hx, hy]
    exact guarded_of_computes m _ dst v _ _ rfl hv hxs (f.guarded_apply x y)
  | setChar d a b =>
    cases hi
    refine (m.guarded_checkTarget dst).bind fun _ ⟨v, hv⟩ => ?_
    have hread := m.guarded_read dst
    rw [m.frames.undeclared?_of_slot? dst v hv, Option.none_or] at hread
    refine hread.bind fun x hx => ?_
    refine (m.guarded_value a).bind fun y hy => ?_
    refine (m.guarded_value b).bind fun z hz => ?_
    have hxs : (Instr.setChar dst a b).values? m = some [x, y, z] := by
      simp [values?, hx, hy, hz]
    exact guarded_of_computes m _ dst v _ _ rfl hv hxs (guarded_setChar x y z)
  | type d a =>
    cases hi
    refine (m.guarded_checkTarget dst).bind fun _ ⟨v, hv⟩ => ?_
    refine (m.guarded_typeName a).or_none.bind_ok fun name hn => ?_
    refine exists_sets m (.type dst a) dst (.string name) v hv ?_
    rw [result?, hn, Option.map_some]
  | read d ty =>
    cases hi
    refine (m.guarded_checkTarget dst).or_none.bind_ok fun _ ⟨v, hv⟩ => ?_
    exact exists_sets m (.read dst ty) dst _ v hv rfl
  | _ => cases hi

end Instr

/-! ## steps -/

namespace Machine

theorem step_of_guarded (m : Machine) (s : State) (i : Instr) (dst : Var)
    (hs : s.status = .running) (hi : m.instr? s.pc = some i) (hu : i.frameUse = .sets dst) :
    (∀ c, Stage.all.findSome? (i.failure s.memory) = some c → m.step s = ⟨s, some ⟨s.pc, c⟩⟩) ∧
    (Stage.all.findSome? (i.failure s.memory) = none → ∃ x fs,
      i.result? s.memory = some x ∧ s.memory.frames.SetsOnly fs dst (.holds x) ∧
      m.step s = ⟨{ s with memory := { i.taken s.memory with frames := fs },
                           pc := s.pc + 1, executed := s.executed + 1 }, none⟩) := by
  obtain ⟨r, hr, rfl⟩ := Option.map_eq_some_iff.mp hi
  have hguard := r.instr.guarded_effect m.labels s r.order dst hu
  rw [m.step_of_get? s r hs hr]
  refine ⟨fun c hc => ?_, fun hnone => ?_⟩
  · rw [hguard.fails c hc]
    rfl
  · obtain ⟨e, he, x, fs, hx, hset, rfl⟩ := hguard.passes hnone
    refine ⟨x, fs, hx, hset, ?_⟩
    rw [he]
    cases s
    cases hs
    rfl

/-- **Checks come in stages, and a target may be a source.**  Let an instruction that sets a
variable be next.  If any of its stages fails, the first that does is what the step reports, and
nothing has changed.  If none fails, the step succeeds: the target has the value that the opcode
makes of those from before the step, no other slot of any frame is touched, and of the rest of the
memory POPS has taken the value on top of the data stack and READ what it read.  TYPE takes a
variable that holds nothing. -/
theorem step_staged (m : Machine) (s : State) (i : Instr) (hs : s.status = .running)
    (hi : m.instr? s.pc = some i) (hw : i.opcode ∈ Opcode.writers) :
    ∃ dst, i.operands.head? = some (.var dst) ∧
    (∀ c, Stage.all.findSome? (i.failure s.memory) = some c → m.step s = ⟨s, some ⟨s.pc, c⟩⟩) ∧
    (Stage.all.findSome? (i.failure s.memory) = none → ∃ x fs,
      i.result? s.memory = some x ∧ s.memory.frames.SetsOnly fs dst (.holds x) ∧
      m.step s = ⟨{ s with memory := { i.taken s.memory with frames := fs },
                           pc := s.pc + 1, executed := s.executed + 1 }, none⟩) ∧
    (∀ v, i = .type dst (.var v) → s.memory.frames.Declared dst.frame.place dst.name →
      s.memory.frames.slot? v.frame.place v.name = some .uninitialized →
      (m.step s).fault = none ∧
        (m.step s).state.memory.frames.read dst = .ok (.string "")) := by
  obtain ⟨dst, hdst, hu⟩ := i.sets_of_mem_writers hw
  obtain ⟨hfails, hpasses⟩ := m.step_of_guarded s i dst hs hi hu
  refine ⟨dst, hdst, hfails, hpasses, fun v htype hd hv => ?_⟩
  obtain ⟨d, hd⟩ := hd
  have hnone : Stage.all.findSome? (i.failure s.memory) = none := by
    rw [Stage.findSome?_all, htype]
    show (s.memory.frames.undeclared? dst).or
      (none.or ((s.memory.frames.undeclared? v).or none)) = none
    rw [s.memory.frames.undeclared?_of_slot? dst d hd, s.memory.frames.undeclared?_of_slot? v _ hv]
    rfl
  obtain ⟨x, fs, hx, hset, hstep⟩ := hpasses hnone
  rw [hstep]
  refine ⟨rfl, (fs.read_eq_ok_iff dst _).mpr ?_⟩
  rw [htype, Instr.result?, Memory.typeName?, hv] at hx
  rw [hset.self, ← Option.some.inj hx]

/-- a string is doubled in place, and then changed at an index that it does not have, by nothing -/
def doublingMachine : Machine :=
  ⟨Program.ofInstrs [.defVar ⟨.gf, "s"⟩,
    .unary .move ⟨.gf, "s"⟩ (.literal (.string "ab")),
    .binary .concat ⟨.gf, "s"⟩ (.var ⟨.gf, "s"⟩) (.var ⟨.gf, "s"⟩),
    .setChar ⟨.gf, "s"⟩ (.literal (.int 9)) (.literal (.string ""))], ⟨[]⟩, rfl⟩

theorem step_staged_doubling :
    let s := doublingMachine.after 2 (State.start [] (Sink.new none) (Sink.new none))
    let s' := doublingMachine.after 3 (State.start [] (Sink.new none) (Sink.new none))
    (doublingMachine.step s).fault = none ∧
    (doublingMachine.step s).state.memory.frames.read ⟨.gf, "s"⟩ = .ok (.string "abab") ∧
    doublingMachine.step s' = ⟨s', some ⟨3, .index 9 4⟩⟩ := by
  intro s s'
  obtain ⟨dst, hdst, _, hpasses, _⟩ := doublingMachine.step_staged s
    (.binary .concat ⟨.gf, "s"⟩ (.var ⟨.gf, "s"⟩) (.var ⟨.gf, "s"⟩)) (by decide) (by decide)
    (by decide)
  obtain ⟨x, fs, hx, hset, hstep⟩ := hpasses (by decide)
  have habab : x = .string "abab" := Option.some.inj (hx.symm.trans (by decide))
  cases hdst
  obtain ⟨_, _, hfails, _⟩ := doublingMachine.step_staged s'
    (.setChar ⟨.gf, "s"⟩ (.literal (.int 9)) (.literal (.string ""))) (by decide) (by decide)
    (by decide)
  refine ⟨by rw [hstep], ?_, hfails (.index 9 4) (by decide)⟩
  rw [hstep, fs.read_eq_ok_iff, ← habab]
  exact hset.self

end Machine
end IPPcode24
