import IPPcode24.Proofs.Equality

/-!
# Instructions that evaluate

An instruction that stores what it computes makes the same of the same values wherever it stands:
neither the rest of the state counts, nor which symbols have the values, nor whether one of them is
the target.

* `Machine.Ends m s order i dst r`   the instruction stores a value and changes nothing else in the
                                 memory, or it fails and changes nothing
* `Unary.Yields f x r`, `Binary.Yields f x y r`, `SetCharYields x y z r`   wherever its operands have
                                 these values, the instruction ends with `r`
* `Unary.yields_iff`, `Binary.yields_iff`, `setCharYields_iff`   **the result is the one that is
                                 computed from the values**
-/

namespace IPPcode24

/-! ## in one state -/

namespace Machine

/-- the instruction, if it is the next one in `s`, ends with `r`: a value that is now in `dst`, which
is all that has changed in the memory, or a cause, and then nothing has changed -/
def Ends (m : Machine) (s : State) (order : Nat) (i : Instr) (dst : Var) :
    Except Cause Value → Prop
  | .ok z => ∃ fs, s.memory.frames.SetsOnly fs dst (.holds z) ∧
      m.outcome s order i = .ok .ahead { s with memory := { s.memory with frames := fs } }
  | .error c => m.outcome s order i = .error c s

variable (m : Machine) (s : State) (order : Nat) (i : Instr) (dst : Var)

/-- an instruction that computes, and then stores into a declared variable -/
theorem ends_of_effect (hd : s.memory.frames.Declared dst.frame.place dst.name)
    (r : Except Cause Value)
    (h : i.effect m.labels s order
      = r >>= fun z => s.memory.setVar dst z >>= fun n => .ok (.ahead n)) :
    m.Ends s order i dst r := by
  cases r with
  | error c =>
    show m.outcome s order i = .error c s
    rw [outcome_eq_finish, h]
    rfl
  | ok z =>
    obtain ⟨slot, hslot⟩ := hd
    obtain ⟨fs, hfs, hset⟩ := s.memory.setVar_of_slot? s.memory rfl dst z slot hslot
    refine ⟨fs, hset, ?_⟩
    rw [outcome_eq_finish, h]
    show s.finish (s.memory.setVar dst z >>= fun n => .ok (.ahead n)) = _
    rw [hfs]
    rfl

/-- there is one way to end -/
theorem Ends.unique (r r' : Except Cause Value) (h : m.Ends s order i dst r)
    (h' : m.Ends s order i dst r') : r = r' := by
  cases r with
  | error c =>
    cases r' with
    | error c' => cases h.symm.trans h'; rfl
    | ok z' =>
      obtain ⟨fs', _, h'⟩ := h'
      cases h.symm.trans h'
  | ok z =>
    obtain ⟨fs, hset, h⟩ := h
    cases r' with
    | error c' => cases h.symm.trans h'
    | ok z' =>
      obtain ⟨fs', hset', h'⟩ := h'
      cases h.symm.trans h'
      cases hset.self.symm.trans hset'.self
      rfl

end Machine

/-! ## in all states -/

def Unary.Yields (f : Unary) (x : Value) (r : Except Cause Value) : Prop :=
  ∀ (m : Machine) (s : State) (order : Nat) (dst : Var) (a : Symbol),
    s.memory.frames.Declared dst.frame.place dst.name → s.memory.value a = .ok x →
    m.Ends s order (.unary f dst a) dst r

def Binary.Yields (f : Binary) (x y : Value) (r : Except Cause Value) : Prop :=
  ∀ (m : Machine) (s : State) (order : Nat) (dst : Var) (a b : Symbol),
    s.memory.frames.Declared dst.frame.place dst.name → s.memory.value a = .ok x →
    s.memory.value b = .ok y → m.Ends s order (.binary f dst a b) dst r

/-- here `x` is the value of the target -/
def SetCharYields (x y z : Value) (r : Except Cause Value) : Prop :=
  ∀ (m : Machine) (s : State) (order : Nat) (dst : Var) (a b : Symbol),
    s.memory.value (.var dst) = .ok x → s.memory.value a = .ok y → s.memory.value b = .ok z →
    m.Ends s order (.setChar dst a b) dst r

/-! ### there are such states -/

/-- one variable, with a value -/
private def sampleVar : Var := ⟨.gf, "x"⟩

private def sample (x : Value) : State :=
  ⟨⟨⟨Frame.empty.put "x" (.holds x), [], none⟩, [], [], []⟩, 0, 0, .running, Sink.new none,
    Sink.new none⟩

private def sampleMachine : Machine := ⟨Program.ofInstrs [], ⟨[]⟩, rfl⟩

private theorem value_sample (x : Value) :
    (sample x).memory.value (.var sampleVar) = .ok x := by
  refine (ofAccess_eq_ok _ x).mpr ((Frames.read_eq_ok_iff _ sampleVar x).mpr ?_)
  exact Frame.get?_put_self _ _ _

private theorem declared_sample (x : Value) :
    (sample x).memory.frames.Declared sampleVar.frame.place sampleVar.name :=
  ⟨_, Frame.get?_put_self _ _ _⟩

/-! ### what is computed -/

/-- a variable with a value is declared -/
theorem Memory.declared_of_value (m : Memory) (v : Var) (x : Value)
    (h : m.value (.var v) = .ok x) : m.frames.Declared v.frame.place v.name :=
  ⟨_, (m.frames.read_eq_ok_iff v x).mp ((ofAccess_eq_ok _ x).mp h)⟩

/-- **What an instruction with one source does is what its opcode computes.** -/
theorem Unary.yields_iff (f : Unary) (x : Value) (r : Except Cause Value) :
    f.Yields x r ↔ f.apply x = r := by
  have hyields : f.Yields x (f.apply x) := by
    intro m s order dst a hd hx
    refine m.ends_of_effect s order _ dst hd _ ?_
    rw [Instr.effect, s.memory.checkTarget_of_declared dst hd, hx]
    rfl
  refine ⟨fun h => ?_, fun h => h ▸ hyields⟩
  have hd := declared_sample x
  exact Machine.Ends.unique sampleMachine (sample x) 0 _ sampleVar _ _
    (hyields _ _ 0 _ (.literal x) hd rfl) (h _ _ 0 _ (.literal x) hd rfl)

/-- **What an instruction with two sources does is what its opcode computes.** -/
theorem Binary.yields_iff (f : Binary) (x y : Value) (r : Except Cause Value) :
    f.Yields x y r ↔ f.apply x y = r := by
  have hyields : f.Yields x y (f.apply x y) := by
    intro m s order dst a b hd hx hy
    refine m.ends_of_effect s order _ dst hd _ ?_
    rw [Instr.effect, s.memory.checkTarget_of_declared dst hd, hx, hy]
    rfl
  refine ⟨fun h => ?_, fun h => h ▸ hyields⟩
  have hd := declared_sample x
  exact Machine.Ends.unique sampleMachine (sample x) 0 _ sampleVar _ _
    (hyields _ _ 0 _ (.literal x) (.literal y) hd rfl rfl)
    (h _ _ 0 _ (.literal x) (.literal y) hd rfl rfl)

/-- **What SETCHAR does is what is computed from the value of its target and two others.** -/
theorem setCharYields_iff (x y z : Value) (r : Except Cause Value) :
    SetCharYields x y z r ↔ setChar x y z = r := by
  have hyields : SetCharYields x y z (setChar x y z) := by
    intro m s order dst a b hx hy hz
    have hd := s.memory.declared_of_value dst x hx
    refine m.ends_of_effect s order _ dst hd _ ?_
    rw [Instr.effect, s.memory.checkTarget_of_declared dst hd,
      show ofAccess (s.memory.frames.read dst) = .ok x from hx, hy, hz]
    rfl
  refine ⟨fun h => ?_, fun h => h ▸ hyields⟩
  have hx := value_sample x
  exact Machine.Ends.unique sampleMachine (sample x) 0 _ sampleVar _ _
    (hyields _ _ 0 _ (.literal y) (.literal z) hx rfl rfl)
    (h _ _ 0 _ (.literal y) (.literal z) hx rfl rfl)

end IPPcode24
