import IPPcode24.Machine.Effect
import IPPcode24.Machine.Routine

/-!
# Routines come to effects

A routine looks up its operands by position and changes the state in place; the effect of an
instruction is computed from the state before.  Main statement, `Routine.ofOpcode_eq_finish`: the
routine of an instruction ends as `State.finish` makes of the effect, in every state.  So nothing
that a routine has taken or changed is lost where it fails.

* `State.answer`              a computation that leaves the state alone
* `inspect_apply`, `symbol_apply`, `target_bind`, ...   what the parts of a routine come to
* `take_bind`                 nothing is taken where nothing is found
* `setVar_of_checkTarget`     a declared variable can be written
-/

namespace IPPcode24

/-! ## parts that leave the state alone -/

/-- the end of a routine that only looks -/
def State.answer {α : Type} (s : State) : Except Cause α → EStateM.Result Cause State α
  | .ok x => .ok x s
  | .error c => .error c s

namespace Routine

section
variable {α : Type} (s : State)

theorem lift_apply (r : Except Cause α) : lift r s = s.answer r := by
  cases r with
  | ok x => rfl
  | error c => rfl

theorem inspect_apply (f : Memory → Except Cause α) : inspect f s = s.answer (f s.memory) :=
  lift_apply s (f s.memory)

/-- a part that only looks, and the rest of the routine after it -/
theorem bind_finish (x : Routine α) (r : Except Cause α) (hx : x s = s.answer r)
    (f : α → Routine Course) (g : α → Except Cause Effect)
    (h : ∀ a, r = .ok a → f a s = s.finish (g a)) : (x >>= f) s = s.finish (r >>= g) := by
  show EStateM.bind x f s = s.finish (r >>= g)
  unfold EStateM.bind
  rw [hx]
  cases hr : r with
  | ok a => exact h a hr
  | error c => rfl

end

/-! ## operands -/

section
variable (op : Opcode) (os : List Operand) (k : Nat) (s : State)

theorem operand_of_getElem? (o : Operand) (h : os[k]? = some o) : operand op os k = pure o := by
  rw [operand, h]

theorem symbol_apply (a : Symbol) (h : os[k]? = some a.operand) :
    symbol op os k s = s.answer (s.memory.value a) := by
  rw [symbol, operand_of_getElem? op os k _ h, pure_bind]
  cases a with
  | var v =>
    show inspect (fun m => m.value (.var v)) s = _
    exact inspect_apply s _
  | literal v => rfl

theorem label_apply (t : Labels) (name : String) (h : os[k]? = some (.label name)) :
    label op os t k s = s.answer (t.target name) := by
  rw [label, operand_of_getElem? op os k _ h, pure_bind]
  exact lift_apply s _

theorem var_eq (v : Var) (h : os[k]? = some (.var v)) : var op os k = pure v := by
  rw [var, operand_of_getElem? op os k _ h, pure_bind]

theorem typeName_eq (ty : Ty) (h : os[k]? = some (.type ty)) : typeName op os k = pure ty := by
  rw [typeName, operand_of_getElem? op os k _ h, pure_bind]

/-- the rest of a routine may rely on the target -/
theorem target_bind (v : Var) (h : os[k]? = some (.var v)) (f : Var → Routine Course)
    (g : Except Cause Effect)
    (hf : s.memory.checkTarget v = .ok () → f v s = s.finish g) :
    (target op os k >>= f) s = s.finish (s.memory.checkTarget v >>= fun _ => g) := by
  rw [target, var_eq op os k v h, pure_bind, bind_assoc]
  refine bind_finish s _ _ (inspect_apply s _) _ _ fun _ ht => ?_
  rw [pure_bind]
  exact hf ht

end

/-! ## stores -/

theorem store_apply (dst : Var) (x : Value) (s : State) :
    store dst x s = s.finish (s.memory.setVar dst x >>= fun m => .ok (.ahead m)) :=
  bind_finish s _ _ (inspect_apply s _) _ _ fun _ _ => rfl

/-- a target that was checked can be written, whatever has become of the rest of the memory -/
theorem setVar_of_checkTarget (m m' : Memory) (hm : m'.frames = m.frames) (dst : Var) (x : Value)
    (h : m.checkTarget dst = .ok ()) : ∃ n, m'.setVar dst x = .ok n := by
  have hf : ∃ f, m.frames.frame dst.frame = .ok f := by
    cases hf : m.frames.frame dst.frame with
    | ok f => exact ⟨f, rfl⟩
    | error e =>
      rw [Memory.checkTarget, Frames.require, Frames.slot, hf] at h
      cases h
  obtain ⟨f, hf⟩ := hf
  refine ⟨{ m' with frames := m.frames.replace (f.put dst.name (.holds x)) dst.frame }, ?_⟩
  rw [Memory.setVar, hm, Frames.assign, hf]
  rfl

/-- so a store that comes after other changes does not fail either -/
theorem store_of_checkTarget (dst : Var) (x : Value) (s : State) (m : Memory)
    (hm : m.frames = s.memory.frames) (h : s.memory.checkTarget dst = .ok ()) :
    store dst x { s with memory := m } = s.finish (m.setVar dst x >>= fun n => .ok (.ahead n)) := by
  obtain ⟨n, hn⟩ := setVar_of_checkTarget s.memory m hm dst x h
  rw [store_apply, hn]
  rfl

/-! ## output -/

/-- a channel that is handed the pieces of a text keeps what fits of the text -/
theorem write_apply (channel : Channel) (pieces : List Bytes) (text : String) (s : State)
    (h : pieces.flatten = utf8 text.toList) :
    write channel pieces s = s.finish (.ok ⟨s.memory, .ahead, some (channel, text)⟩) := by
  have hm : (s.push channel (utf8 text.toList)).memory = s.memory := by cases channel <;> rfl
  have hpush : s.setSink channel ((s.sink channel).push (utf8 text.toList))
      = s.push channel (utf8 text.toList) := by cases channel <;> rfl
  have hwrite : write channel pieces s
      = (if (s.sink channel).fits (utf8 text.toList) then pure .ahead else throw .channelFull :
          Routine Course) (s.push channel (utf8 text.toList)) := by
    rw [← hpush, ← h]
    show (if ((s.sink channel).write pieces).1 then pure .ahead else throw .channelFull :
      Routine Course) (s.setSink channel ((s.sink channel).write pieces).2) = _
    rw [Sink.write_eq]
  rw [hwrite, State.finish, State.hasRoom, State.emit]
  split
  · rw [← hm]; rfl
  · rfl

/-! ## taking -/

/-- **Nothing is taken where nothing is found.**  The memory moves on before it is known whether
there was anything, so the failing case rests on `hr`. -/
theorem take_bind {α : Type} (found : Memory → Option α) (rest : Memory → Memory) (c : Cause)
    (s : State) (f : α → Routine Course) (g : Except Cause Effect)
    (hr : found s.memory = none → rest s.memory = s.memory)
    (hn : found s.memory = none → g = .error c)
    (hf : ∀ x, found s.memory = some x → f x { s with memory := rest s.memory } = s.finish g) :
    (take found rest c >>= f) s = s.finish g := by
  have ht : take found rest c s
      = ofOption c (found s.memory) { s with memory := rest s.memory } := rfl
  show EStateM.bind _ _ s = _
  unfold EStateM.bind
  cases h : found s.memory with
  | some x =>
    rw [ht, h]
    exact hf x h
  | none =>
    rw [ht, h, hr h, hn h]
    rfl

section
variable (t : Labels) (order : Nat) (s : State)

theorem pushFrame_apply :
    ofOpcode t order .pushFrame [] s = s.finish (Instr.pushFrame.effect t s order) := by
  refine take_bind _ _ _ s _ _ (fun h => ?_) (fun h => ?_) (fun f h => ?_)
  · show ({ s.memory with frames := { s.memory.frames with temporary := none } } : Memory) = s.memory
    rw [← h]
  · rw [Instr.effect, Frames.push, h]
    rfl
  · rw [Instr.effect, Frames.push, h]
    rfl

theorem popFrame_apply :
    ofOpcode t order .popFrame [] s = s.finish (Instr.popFrame.effect t s order) := by
  refine take_bind _ _ _ s _ _ (fun h => ?_) (fun h => ?_) (fun f h => ?_)
  · have hl : s.memory.frames.locals = [] := List.head?_eq_none_iff.mp h
    show ({ s.memory with
      frames := { s.memory.frames with locals := s.memory.frames.locals.tail } } : Memory) = s.memory
    rw [hl, List.tail_nil, ← hl]
  · rw [Instr.effect, Frames.pop, List.head?_eq_none_iff.mp h]
    rfl
  · obtain ⟨outer, hl⟩ := List.head?_eq_some_iff.mp h
    rw [Instr.effect, Frames.pop, hl]
    rfl

theorem ret_apply : ofOpcode t order .ret [] s = s.finish (Instr.ret.effect t s order) := by
  refine take_bind _ _ _ s _ _ (fun h => ?_) (fun h => ?_) (fun i h => ?_)
  · have hc : s.memory.calls = [] := List.head?_eq_none_iff.mp h
    show ({ s.memory with calls := s.memory.calls.tail } : Memory) = s.memory
    rw [hc, List.tail_nil, ← hc]
  · rw [Instr.effect, Memory.popCall, List.head?_eq_none_iff.mp h]
    rfl
  · obtain ⟨calls, hc⟩ := List.head?_eq_some_iff.mp h
    rw [Instr.effect, Memory.popCall, hc]
    show _ = EStateM.Result.ok _ _
    have ht : calls = s.memory.calls.tail := by rw [hc, List.tail_cons]
    rw [ht]
    rfl

theorem call_apply (name : String) :
    ofOpcode t order .call [.label name] s = s.finish ((Instr.call name).effect t s order) :=
  bind_finish s _ _ (label_apply .call _ 0 s t name rfl) _ _ fun _ _ => rfl

theorem jump_apply (name : String) :
    ofOpcode t order .jump [.label name] s = s.finish ((Instr.jump name).effect t s order) :=
  bind_finish s _ _ (label_apply .jump _ 0 s t name rfl) _ _ fun _ _ => rfl

theorem defVar_apply (v : Var) :
    ofOpcode t order .defVar [.var v] s = s.finish ((Instr.defVar v).effect t s order) := by
  show (var .defVar [.var v] 0 >>= _) s = _
  rw [var_eq .defVar _ 0 v rfl, pure_bind]
  exact bind_finish s _ _ (inspect_apply s _) _ _ fun _ _ => rfl

theorem pushs_apply (a : Symbol) :
    ofOpcode t order .pushs [a.operand] s = s.finish ((Instr.pushs a).effect t s order) :=
  bind_finish s _ _ (symbol_apply .pushs _ 0 s a rfl) _ _ fun _ _ => rfl

theorem exit_apply (a : Symbol) :
    ofOpcode t order .exit [a.operand] s = s.finish ((Instr.exit a).effect t s order) := by
  refine bind_finish s _ _ (symbol_apply .exit _ 0 s a rfl) _ _ fun x _ => ?_
  exact bind_finish s _ _ (lift_apply s _) _ _ fun _ _ => rfl

/-- the value is taken before the store, which the check of the target keeps from failing -/
theorem pops_apply (dst : Var) :
    ofOpcode t order .pops [.var dst] s = s.finish ((Instr.pops dst).effect t s order) := by
  refine target_bind _ _ _ s dst rfl _ _ fun ht => ?_
  refine take_bind _ _ _ s _ _ (fun h => ?_) (fun h => ?_) (fun x h => ?_)
  · have hd : s.memory.data = [] := List.head?_eq_none_iff.mp h
    show ({ s.memory with data := s.memory.data.tail } : Memory) = s.memory
    rw [hd, List.tail_nil, ← hd]
  · rw [Memory.popData, List.head?_eq_none_iff.mp h]
    rfl
  · obtain ⟨data, hd⟩ := List.head?_eq_some_iff.mp h
    rw [Memory.popData, hd]
    exact store_of_checkTarget dst x s _ rfl ht

/-- the line is read before the store, which the check of the target keeps from failing -/
theorem read_apply (dst : Var) (ty : Ty) :
    ofOpcode t order .read [.var dst, .type ty] s
      = s.finish ((Instr.read dst ty).effect t s order) := by
  refine target_bind _ _ _ s dst rfl _ _ fun ht => ?_
  rw [typeName_eq .read _ 1 ty rfl, pure_bind]
  exact store_of_checkTarget dst _ s _ rfl ht

theorem ofOpcode_unary (f : Unary) (os : List Operand) :
    ofOpcode t order f.opcode os = unary f.opcode os f := by
  cases f <;> rfl

theorem ofOpcode_binary (f : Binary) (os : List Operand) :
    ofOpcode t order f.opcode os = binary f.opcode os f := by
  cases f <;> rfl

theorem unary_apply (f : Unary) (dst : Var) (a : Symbol) :
    unary f.opcode [.var dst, a.operand] f s
      = s.finish ((Instr.unary f dst a).effect t s order) := by
  refine target_bind _ _ _ s dst rfl _ _ fun _ => ?_
  refine bind_finish s _ _ (symbol_apply f.opcode _ 1 s a rfl) _ _ fun x _ => ?_
  refine bind_finish s _ _ (lift_apply s _) _ _ fun y _ => ?_
  exact store_apply dst y s

theorem binary_apply (f : Binary) (dst : Var) (a b : Symbol) :
    binary f.opcode [.var dst, a.operand, b.operand] f s
      = s.finish ((Instr.binary f dst a b).effect t s order) := by
  refine target_bind _ _ _ s dst rfl _ _ fun _ => ?_
  refine bind_finish s _ _ (symbol_apply f.opcode _ 1 s a rfl) _ _ fun x _ => ?_
  refine bind_finish s _ _ (symbol_apply f.opcode _ 2 s b rfl) _ _ fun y _ => ?_
  refine bind_finish s _ _ (lift_apply s _) _ _ fun z _ => ?_
  exact store_apply dst z s

theorem setChar_apply (dst : Var) (a b : Symbol) :
    ofOpcode t order .setChar [.var dst, a.operand, b.operand] s
      = s.finish ((Instr.setChar dst a b).effect t s order) := by
  refine target_bind _ _ _ s dst rfl _ _ fun _ => ?_
  refine bind_finish s _ _ (inspect_apply s _) _ _ fun x _ => ?_
  refine bind_finish s _ _ (symbol_apply .setChar _ 1 s a rfl) _ _ fun y _ => ?_
  refine bind_finish s _ _ (symbol_apply .setChar _ 2 s b rfl) _ _ fun z _ => ?_
  refine bind_finish s _ _ (lift_apply s _) _ _ fun w _ => ?_
  exact store_apply dst w s

theorem type_apply (dst : Var) (a : Symbol) :
    ofOpcode t order .type [.var dst, a.operand] s
      = s.finish ((Instr.type dst a).effect t s order) := by
  refine target_bind _ _ _ s dst rfl _ _ fun _ => ?_
  rw [operand_of_getElem? .type _ 1 a.operand rfl, pure_bind]
  cases a with
  | var v => exact bind_finish s _ _ (inspect_apply s _) _ _ fun name _ => store_apply dst _ s
  | literal v => exact store_apply dst _ s

theorem print_apply (op : Opcode) (channel : Channel) (a : Symbol) :
    print op [a.operand] channel s = s.finish ((Instr.print channel a).effect t s order) := by
  refine bind_finish s _ _ (symbol_apply op _ 0 s a rfl) _ _ fun x _ => ?_
  exact write_apply channel _ x.text s (Output.flatten_value x)

theorem jumpIf_apply (verdict : Bool) (name : String) (a b : Symbol) :
    jumpIf (Instr.jumpIf verdict name a b).opcode [.label name, a.operand, b.operand] t verdict s
      = s.finish ((Instr.jumpIf verdict name a b).effect t s order) := by
  refine bind_finish s _ _ (label_apply _ _ 0 s t name rfl) _ _ fun i _ => ?_
  refine bind_finish s _ _ (symbol_apply _ _ 1 s a rfl) _ _ fun x _ => ?_
  refine bind_finish s _ _ (symbol_apply _ _ 2 s b rfl) _ _ fun y _ => ?_
  exact bind_finish s _ _ (lift_apply s _) _ _ fun e _ => rfl

/-- **The routine of an instruction ends as its effect says**, in every state. -/
theorem ofOpcode_eq_finish (i : Instr) :
    ofOpcode t order i.opcode i.operands s = s.finish (i.effect t s order) := by
  cases i with
  | createFrame => rfl
  | pushFrame => exact pushFrame_apply t order s
  | popFrame => exact popFrame_apply t order s
  | defVar v => exact defVar_apply t order s v
  | call name => exact call_apply t order s name
  | ret => exact ret_apply t order s
  | pushs a => exact pushs_apply t order s a
  | pops dst => exact pops_apply t order s dst
  | unary f dst a =>
    show ofOpcode t order f.opcode _ s = _
    rw [ofOpcode_unary]
    exact unary_apply t order s f dst a
  | binary f dst a b =>
    show ofOpcode t order f.opcode _ s = _
    rw [ofOpcode_binary]
    exact binary_apply t order s f dst a b
  | setChar dst a b => exact setChar_apply t order s dst a b
  | type dst a => exact type_apply t order s dst a
  | read dst ty => exact read_apply t order s dst ty
  | print channel a => cases channel <;> exact print_apply t order s _ _ a
  | label name => rfl
  | jump name => exact jump_apply t order s name
  | jumpIf verdict name a b => cases verdict <;> exact jumpIf_apply t order s _ name a b
  | exit a => exact exit_apply t order s a
  | brk => exact write_apply .stderr _ (s.report order) s (Output.flatten_string _)

end

end Routine
end IPPcode24
