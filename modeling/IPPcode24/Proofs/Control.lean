import IPPcode24.Proofs.Labels

/-!
# Where control goes

* `Instr.destination?`          the label that CALL, JUMP, JUMPIFEQ or JUMPIFNEQ goes to
* `Instr.Passes t s i c calls`  the ways in which an instruction hands control on: the course, and
                                the call stack that is left
* `Machine.AfterCall m r`       `r` is the index after a CALL
* `Machine.Controlled m s`      the position, the call stack and the halt of `s` fit the program
* `Machine.Controlled.step`     one step keeps this
* `Machine.Controlled.jumps`    where a step goes that leaves the order of the program

Main statement, `Machine.control_flow`: this holds after any number of steps of any run.
-/

namespace IPPcode24

/-! ## how instructions hand control on -/

def Instr.destination? : Instr → Option String
  | .call name => some name
  | .jump name => some name
  | .jumpIf _ name _ _ => some name
  | _ => none

theorem Instr.destination?_eq_some (i : Instr) (name : String) (h : i.destination? = some name) :
    i.opcode ∈ [.jump, .call, .jumpIfEq, .jumpIfNeq] ∧
      i.operands.head? = some (.label name) := by
  cases i with
  | call n => cases h; exact ⟨by simp [opcode], rfl⟩
  | jump n => cases h; exact ⟨by simp [opcode], rfl⟩
  | jumpIf verdict n a b =>
    cases h
    cases verdict with
    | true => exact ⟨by simp [opcode], rfl⟩
    | false => exact ⟨by simp [opcode], rfl⟩
  | _ => cases h

theorem Instr.mem_operands_of_destination? (i : Instr) (name : String)
    (h : i.destination? = some name) : Operand.label name ∈ i.operands :=
  List.mem_of_mem_head? (i.destination?_eq_some name h).2

inductive Instr.Passes (t : Labels) (s : State) : Instr → Course → List Nat → Prop where
  | ahead (i : Instr) : Passes t s i .ahead s.memory.calls
  | jump (i : Instr) (name : String) (j : Nat) (hi : i.destination? = some name)
      (hj : t.find? name = some j) : Passes t s i (.goto j) s.memory.calls
  | call (name : String) (j : Nat) (hj : t.find? name = some j) :
    Passes t s (.call name) (.goto j) ((s.pc + 1) :: s.memory.calls)
  | ret (j : Nat) (calls : List Nat) (hc : s.memory.calls = j :: calls) :
    Passes t s .ret (.goto j) calls
  | stop (a : Symbol) (code : Fin 10) : Passes t s (.exit a) (.stop code) s.memory.calls

theorem exitCode_eq_ok (x : Value) (code : Fin 10) (h : exitCode x = .ok code) :
    ∃ n, x = .int n ∧ n.toInt = code.val := by
  unfold exitCode at h
  split at h
  · next n =>
    split at h
    · next hn =>
      cases h
      refine ⟨n, rfl, ?_⟩
      show n.toInt = (n.toInt.toNat : Int)
      omega
    · cases h
  · cases h

namespace Instr.HasEffect

variable (t : Labels) (s : State) (order : Nat) (i : Instr) (e : Effect)

theorem passes (h : i.HasEffect t s order e) : i.Passes t s e.course e.memory.calls := by
  cases h with
  | call name j hj => exact .call name j hj
  | ret j calls hc => exact .ret j calls hc
  | jump name j hj => exact .jump (.jump name) name j rfl hj
  | jumpIf verdict name a b j x y eq hj hx hy he =>
    by_cases hv : eq = verdict
    · rw [if_pos hv]
      exact .jump (.jumpIf verdict name a b) name j rfl hj
    · rw [if_neg hv]
      exact .ahead _
  | exit a x code hx hc => exact .stop a code
  | _ => exact .ahead _

/-- only `EXIT` stops, with the code that its operand has -/
theorem stops (h : i.HasEffect t s order e) (code : Fin 10) (hc : e.course.status = .halted code) :
    ∃ a n, i = .exit a ∧ s.memory.value a = .ok (.int n) ∧ n.toInt = code.val ∧
      e.memory = s.memory := by
  cases h with
  | exit a x code' hx he =>
    cases hc
    obtain ⟨n, rfl, hn⟩ := exitCode_eq_ok x code he
    exact ⟨a, n, rfl, hx, hn, rfl⟩
  | jumpIf verdict name a b j x y eq hj hx hy he =>
    dsimp only at hc
    split at hc
    · cases hc
    · cases hc
  | _ => cases hc

end Instr.HasEffect

/-! ## the invariant -/

namespace Machine

def AfterCall (m : Machine) (r : Nat) : Prop :=
  1 ≤ r ∧ r ≤ m.program.size ∧ ∃ name, m.instr? (r - 1) = some (.call name)

structure Controlled (m : Machine) (s : State) : Prop where
  pc_le : s.pc ≤ m.program.size
  calls : ∀ r ∈ s.memory.calls, m.AfterCall r
  /-- the program is at its end, or at an `EXIT` with this code -/
  halted : ∀ code, s.status = .halted code → code = 0 ∧ s.pc = m.program.size ∨
    ∃ a n, m.instr? s.pc = some (.exit a) ∧ s.memory.value a = .ok (.int n) ∧ n.toInt = code.val

variable (m : Machine) (s : State)

theorem controlled_start (input : Bytes) (stdout stderr : Sink) :
    m.Controlled (State.start input stdout stderr) where
  pc_le := Nat.zero_le _
  calls _ hr := (nomatch hr)
  halted _ hc := (nomatch hc)

/-- an instruction hands control on within the program -/
theorem Controlled.passes (h : m.Controlled s) (i : Instr) (hi : m.instr? s.pc = some i)
    (c : Course) (calls : List Nat) (hp : i.Passes m.labels s c calls) :
    c.pc s.pc ≤ m.program.size ∧ ∀ r ∈ calls, m.AfterCall r := by
  have hlt := m.lt_size_of_instr? s.pc i hi
  have hfound : ∀ name j, m.labels.find? name = some j → j ≤ m.program.size := by
    intro name j hj
    exact Nat.le_of_lt (m.lt_size_of_instr? j _ ((m.find?_label name j).mp hj))
  cases hp with
  | ahead => exact ⟨Nat.succ_le_of_lt hlt, h.calls⟩
  | jump _ name j hd hj => exact ⟨hfound name j hj, h.calls⟩
  | call name j hj =>
    refine ⟨hfound name j hj, fun r hr => ?_⟩
    rcases List.mem_cons.mp hr with rfl | hr
    · exact ⟨Nat.succ_pos _, hlt, name, hi⟩
    · exact h.calls r hr
  | ret j calls hc =>
    have hmem : ∀ r ∈ j :: calls, m.AfterCall r := by
      rw [← hc]
      exact h.calls
    obtain ⟨hj, hcalls⟩ := List.forall_mem_cons.mp hmem
    exact ⟨hj.2.1, hcalls⟩
  | stop a code => exact ⟨h.pc_le, h.calls⟩

theorem Controlled.perform (h : m.Controlled s) (i : Instr) (hi : m.instr? s.pc = some i)
    (e : Effect) (order : Nat) (he : i.HasEffect m.labels s order e) :
    m.Controlled (s.perform e) := by
  obtain ⟨hpc, hcalls⟩ := h.passes m s i hi _ _ he.passes
  refine ⟨by rwa [State.perform_pc], hcalls, fun code hc => .inr ?_⟩
  obtain ⟨a, n, rfl, hn, hcode, hmem⟩ := he.stops _ _ _ _ _ code hc
  rw [State.perform_status, Course.status_eq_halted] at hc
  rw [State.perform_pc, State.perform_memory, hc, hmem]
  exact ⟨a, n, hi, hn, hcode⟩

/-- **One step keeps control.** -/
theorem Controlled.step (h : m.Controlled s) : m.Controlled (m.step s).state := by
  have hs := m.stepTo_step s
  generalize m.step s = u at hs ⊢
  cases hs with
  | rest code hs => exact h
  | halt hs hr =>
    have hge : m.program.size ≤ s.pc := Array.getElem?_eq_none_iff.mp hr
    refine ⟨h.pc_le, h.calls, fun code hc => ?_⟩
    cases hc
    exact .inl ⟨rfl, Nat.le_antisymm h.pc_le hge⟩
  | fail r c hs hr hc => exact h
  | full r e hs hr he ho =>
    show m.Controlled (s.emit e.output)
    rw [State.emit_eq]
    exact ⟨h.pc_le, h.calls, h.halted⟩
  | done r e hs hr he ho =>
    exact h.perform m s r.instr (m.instr?_of_get? _ r hr) e r.order
      (r.instr.effect_eq_ok m.labels s r.order e he)

theorem controlled_after (h : m.Controlled s) (n : Nat) : m.Controlled (m.after n s) :=
  m.after_invariant m.Controlled (fun _ hs => hs.step) n s h

/-! ## jumps -/

/-- a step that neither goes on to the next instruction nor halts goes to the one place where a
label is defined, or back to a CALL -/
theorem Controlled.jumps (h : m.Controlled s) (hf : (m.step s).fault = none)
    (hs : (m.step s).state.status = .running) (hpc : (m.step s).state.pc ≠ s.pc + 1) :
    (∃ i name, m.instr? s.pc = some i ∧ i.destination? = some name ∧
      m.instr? (m.step s).state.pc = some (.label name)) ∨
    m.instr? s.pc = some .ret ∧ m.AfterCall (m.step s).state.pc := by
  have hstep := m.stepTo_step s
  generalize m.step s = u at hstep hf hs hpc ⊢
  cases hstep with
  | rest code hc => rw [hc] at hs; cases hs
  | halt hc hr => cases hs
  | fail r c hc hr he => cases hf
  | full r e hc hr he ho => cases hf
  | done r e hc hr he ho =>
    have hi := m.instr?_of_get? _ r hr
    have hp := (r.instr.effect_eq_ok m.labels s r.order e he).passes
    rw [State.perform_pc] at hpc ⊢
    rw [State.perform_status] at hs
    generalize e.course = c at hp hs hpc ⊢
    generalize e.memory.calls = calls at hp
    generalize r.instr = i at hi hp
    cases hp with
    | ahead => exact absurd rfl hpc
    | jump _ name j hd hj => exact .inl ⟨i, name, hi, hd, (m.find?_label name j).mp hj⟩
    | call name j hj => exact .inl ⟨_, name, hi, rfl, (m.find?_label name j).mp hj⟩
    | ret j _ hcalls =>
      have hmem : j ∈ s.memory.calls := by
        rw [hcalls]
        exact List.mem_cons_self
      exact .inr ⟨hi, h.calls j hmem⟩
    | stop a code => cases hs

/-- a label that is undefined is defined nowhere -/
theorem undefined_of_fault (f : Fault) (hf : (m.step s).fault = some f) (name : String)
    (hc : f.cause = .undefinedLabel name) (i : Nat) : m.instr? i ≠ some (.label name) := by
  have hp := m.cause_of_fault s f hf
  rw [hc] at hp
  rcases hp with hp | hp
  · cases hp
  · exact (m.find?_eq_none name).mp hp i

/-! ## counting -/

theorem executed_step :
    (m.step s).state.executed = s.executed + if m.executes s then 1 else 0 := by
  cases hx : m.executes s with
  | true =>
    obtain ⟨r, e, _, _, hstep⟩ := m.step_of_executes s hx
    rw [hstep, State.perform_executed]
    rfl
  | false => exact (m.step_of_not_executes s hx).2.2

theorem executed_after (n : Nat) :
    (m.after n s).executed =
      s.executed + (List.range n).countP fun k => m.executes (m.after k s) := by
  induction n with
  | zero => rfl
  | succ n ih =>
    rw [after_succ, executed_step, ih, List.range_succ, List.countP_append, List.countP_singleton,
      Nat.add_assoc]

/-! ## the main statement -/

/-- **Control flow.**  After any number of steps of a run, also after faults and after the halt: the
position and all that is on the call stack fit the program, and so does a halt; the count is that of
the steps that executed an instruction; a halted machine rests.  A step that leaves the order of the
program goes to the only definition of the label that its instruction names, or returns behind a
CALL.  A label that is reported as undefined is not defined by the program. -/
theorem control_flow (input : Bytes) (stdout stderr : Option Nat) (n : Nat) :
    let start := State.start input (Sink.new stdout) (Sink.new stderr)
    let s := m.after n start
    m.Controlled s ∧
    s.executed = ((List.range n).countP fun k => m.executes (m.after k start)) ∧
    (∀ code, s.status = .halted code → m.step s = ⟨s, none⟩ ∧ ∀ k, m.after k s = s) ∧
    ((m.step s).fault = none → (m.step s).state.status = .running →
      (m.step s).state.pc ≠ s.pc + 1 →
      (∃ i name, m.instr? s.pc = some i ∧ i.opcode ∈ [.jump, .call, .jumpIfEq, .jumpIfNeq] ∧
        i.operands.head? = some (.label name) ∧
        m.instr? (m.step s).state.pc = some (.label name) ∧
        ∀ j, m.instr? j = some (.label name) → j = (m.step s).state.pc) ∨
      m.instr? s.pc = some .ret ∧ m.AfterCall (m.step s).state.pc) ∧
    (∀ f name, (m.step s).fault = some f → f.cause = .undefinedLabel name →
      ∀ i, m.instr? i ≠ some (.label name)) := by
  intro start s
  have hs : m.Controlled s := m.controlled_after start (m.controlled_start _ _ _) n
  have hcount := m.executed_after start n
  rw [show start.executed = 0 from rfl, Nat.zero_add] at hcount
  refine ⟨hs, hcount, fun code hc => ?_, fun hf hr hpc => ?_,
    fun f name hf hc => m.undefined_of_fault s f hf name hc⟩
  · have hstep := m.step_of_halted s code hc
    exact ⟨hstep, fun k => m.after_of_fixed k s (by rw [hstep])⟩
  · obtain ⟨i, name, hi, hd, hq⟩ | hret := hs.jumps m s hf hr hpc
    · obtain ⟨hop, hhead⟩ := i.destination?_eq_some name hd
      exact .inl ⟨i, name, hi, hop, hhead, hq, fun j hj => m.label_unique name j _ hj hq⟩
    · exact .inr hret

/-- a function behind a jump, called once -/
def callMachine : Machine :=
  ⟨Program.ofInstrs [.jump "main", .label "f", .ret, .label "main", .call "f"],
    ⟨[("f", 1), ("main", 3)]⟩, rfl⟩

theorem control_flow_call :
    let s := callMachine.after 4 (State.start [] (Sink.new none) (Sink.new none))
    s.pc = 2 ∧ s.executed = 4 ∧ callMachine.Controlled s ∧ (callMachine.step s).state.pc = 5 ∧
      callMachine.AfterCall 5 := by
  intro s
  have hpc : (callMachine.step s).state.pc = 5 := by decide
  obtain ⟨hs, _, _, hjump, _⟩ := callMachine.control_flow [] none none 4
  have hi : callMachine.instr? s.pc = some .ret := by decide
  obtain ⟨i, name, hi', hop, _⟩ | ⟨_, hcall⟩ := hjump (by decide) (by decide) (by decide)
  · rw [hi] at hi'
    cases hi'
    exact absurd hop (by decide)
  · rw [hpc] at hcall
    exact ⟨by decide, by decide, hs, hpc, hcall⟩

end Machine
end IPPcode24
