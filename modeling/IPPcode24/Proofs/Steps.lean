import IPPcode24.Machine.Run
import IPPcode24.Proofs.Agreement
import IPPcode24.Proofs.Effects

/-!
# Steps and the states they lead to

* `State.perform s e`       the state in which an instruction with the effect `e` ends
* `Machine.StepTo m s r`    the ways in which a step from `s` goes, with what it comes to
* `Machine.stepTo_step`     every step goes in one of them
* `Machine.executes m s`    the step from `s` executes an instruction; `step_of_executes` and
                            `step_of_not_executes` are all that most proofs need of a step
* `Machine.explained_of_fault`, `cause_of_fault`   the causes that a step can report
* `Machine.after m n s`     the state after `n` steps, also such that fail or find the machine halted
-/

namespace IPPcode24

/-! ## the state after an instruction -/

namespace State

def perform (s : State) (e : Effect) : State :=
  State.advance { s.emit e.output with memory := e.memory } e.course

variable (s : State) (o : Option (Channel × String)) (e : Effect)

@[simp] theorem emit_memory : (s.emit o).memory = s.memory := by rw [emit_eq]
@[simp] theorem emit_pc : (s.emit o).pc = s.pc := by rw [emit_eq]
@[simp] theorem emit_executed : (s.emit o).executed = s.executed := by rw [emit_eq]
@[simp] theorem emit_status : (s.emit o).status = s.status := by rw [emit_eq]

@[simp] theorem perform_memory : (s.perform e).memory = e.memory := rfl
@[simp] theorem perform_status : (s.perform e).status = e.course.status := rfl
@[simp] theorem perform_pc : (s.perform e).pc = e.course.pc s.pc := by
  show e.course.pc (s.emit e.output).pc = _
  rw [emit_pc]
@[simp] theorem perform_executed : (s.perform e).executed = s.executed + 1 := by
  show (s.emit e.output).executed + 1 = _
  rw [emit_executed]

end State

namespace Machine

def instr? (m : Machine) (i : Nat) : Option Instr := (m.program.get? i).map Record.instr

/-! ## the ways of a step -/

inductive StepTo (m : Machine) (s : State) : Stepped → Prop where
  /-- a halted machine rests -/
  | rest (code : Fin 10) (hs : s.status = .halted code) : StepTo m s ⟨s, none⟩
  /-- past the last instruction -/
  | halt (hs : s.status = .running) (hr : m.program.get? s.pc = none) :
    StepTo m s ⟨{ s with status := .halted 0 }, none⟩
  /-- an instruction without effect -/
  | fail (r : Record) (c : Cause) (hs : s.status = .running) (hr : m.program.get? s.pc = some r)
      (hc : r.instr.effect m.labels s r.order = .error c) : StepTo m s ⟨s, some ⟨s.pc, c⟩⟩
  /-- an instruction whose output does not fit -/
  | full (r : Record) (e : Effect) (hs : s.status = .running) (hr : m.program.get? s.pc = some r)
      (he : r.instr.effect m.labels s r.order = .ok e) (ho : s.hasRoom e.output = false) :
    StepTo m s ⟨s.emit e.output, some ⟨s.pc, .channelFull⟩⟩
  /-- an instruction that is executed -/
  | done (r : Record) (e : Effect) (hs : s.status = .running) (hr : m.program.get? s.pc = some r)
      (he : r.instr.effect m.labels s r.order = .ok e) (ho : s.hasRoom e.output = true) :
    StepTo m s ⟨s.perform e, none⟩

/-- a step comes to what the effect of its instruction makes of the state -/
theorem step_of_get? (m : Machine) (s : State) (r : Record) (hs : s.status = .running)
    (hr : m.program.get? s.pc = some r) :
    m.step s = .ofResult (s.finish (r.instr.effect m.labels s r.order)) := by
  rw [step, hs, hr, ← Routine.ofOpcode_eq_finish]

theorem step_of_halted (m : Machine) (s : State) (code : Fin 10) (h : s.status = .halted code) :
    m.step s = ⟨s, none⟩ := by
  rw [step, h]

theorem step_of_end (m : Machine) (s : State) (hs : s.status = .running)
    (hr : m.program.get? s.pc = none) : m.step s = ⟨{ s with status := .halted 0 }, none⟩ := by
  rw [step, hs, hr]

/-- **Every step goes in one of the five ways.** -/
theorem stepTo_step (m : Machine) (s : State) : StepTo m s (m.step s) := by
  cases hs : s.status with
  | halted code =>
    rw [m.step_of_halted s code hs]
    exact .rest code hs
  | running =>
    cases hr : m.program.get? s.pc with
    | none =>
      rw [m.step_of_end s hs hr]
      exact .halt hs hr
    | some r =>
      rw [m.step_of_get? s r hs hr]
      cases he : r.instr.effect m.labels s r.order with
      | error c => exact .fail r c hs hr he
      | ok e =>
        rw [State.finish]
        cases ho : s.hasRoom e.output with
        | true => exact .done r e hs hr he ho
        | false =>
          show StepTo m s ⟨s.emit e.output, some ⟨(s.emit e.output).pc, .channelFull⟩⟩
          rw [State.emit_pc]
          exact .full r e hs hr he ho

section
variable (m : Machine) (s : State)

theorem instr?_of_get? (i : Nat) (r : Record) (h : m.program.get? i = some r) :
    m.instr? i = some r.instr := by
  rw [instr?, h, Option.map_some]

/-- the step from `s` executes an instruction -/
def executes : Bool :=
  decide (s.status = .running) && (m.program.get? s.pc).isSome && decide ((m.step s).fault = none)

theorem step_of_executes (h : m.executes s = true) : ∃ r e, m.program.get? s.pc = some r ∧
    r.instr.HasEffect m.labels s r.order e ∧ m.step s = ⟨s.perform e, none⟩ := by
  have hs := m.stepTo_step s
  unfold executes at h
  generalize m.step s = u at hs h ⊢
  cases hs with
  | rest code hs => simp [hs] at h
  | halt hs hr => simp [hr] at h
  | fail r c hs hr hc => simp at h
  | full r e hs hr he ho => simp at h
  | done r e hs hr he ho =>
    exact ⟨r, e, hr, r.instr.effect_eq_ok m.labels s r.order e he, rfl⟩

theorem executes_of_effect (r : Record) (e : Effect) (hs : s.status = .running)
    (hr : m.program.get? s.pc = some r) (he : r.instr.effect m.labels s r.order = .ok e)
    (ho : s.hasRoom e.output = true) : m.executes s = true := by
  have hstep := m.stepTo_step s
  unfold executes
  generalize m.step s = u at hstep ⊢
  cases hstep with
  | rest code hc => rw [hs] at hc; cases hc
  | halt _ hr' => rw [hr] at hr'; cases hr'
  | fail r' c _ hr' hc => cases hr.symm.trans hr'; rw [he] at hc; cases hc
  | full r' e' _ hr' he' ho' =>
    cases hr.symm.trans hr'
    cases he.symm.trans he'
    rw [ho] at ho'
    cases ho'
  | done r' e' _ hr' he' ho' => simp [hs, hr]

theorem step_of_not_executes (h : m.executes s = false) :
    (m.step s).state.memory = s.memory ∧ (m.step s).state.pc = s.pc ∧
      (m.step s).state.executed = s.executed := by
  have hs := m.stepTo_step s
  unfold executes at h
  generalize m.step s = u at hs h ⊢
  cases hs with
  | done r e hs hr he ho => simp [hs, hr] at h
  | full r e hs hr he ho => exact ⟨s.emit_memory _, s.emit_pc _, s.emit_executed _⟩
  | _ => exact ⟨rfl, rfl, rfl⟩

/-- what a step reports is explained, or it is the lack of room for the output -/
theorem explained_of_fault (f : Fault) (h : (m.step s).fault = some f) :
    f.cause = .channelFull ∨ f.cause.Explained m.labels s.memory.frames := by
  have hs := m.stepTo_step s
  generalize m.step s = u at hs h
  cases hs with
  | rest code hs => cases h
  | halt hs hr => cases h
  | done r e hs hr he ho => cases h
  | full r e hs hr he ho =>
    cases h
    exact .inl rfl
  | fail r c hs hr hc =>
    cases h
    exact .inr (r.instr.effect_explained m.labels s r.order c hc)

theorem cause_of_fault (f : Fault) (h : (m.step s).fault = some f) :
    f.cause = .channelFull ∨ f.cause.Possible m.labels :=
  (m.explained_of_fault s f h).imp_right fun hc => hc.possible

end

/-! ## states after steps -/

def after (m : Machine) : Nat → State → State
  | 0, s => s
  | n + 1, s => (m.step (m.after n s)).state

theorem after_succ (m : Machine) (n : Nat) (s : State) :
    m.after (n + 1) s = (m.step (m.after n s)).state := rfl

/-- what every step keeps holds after any number of steps -/
theorem after_invariant (m : Machine) (P : State → Prop) (hP : ∀ s, P s → P (m.step s).state)
    (n : Nat) (s : State) (h : P s) : P (m.after n s) := by
  induction n with
  | zero => exact h
  | succ n ih =>
    rw [after_succ]
    exact hP _ ih

/-- a state that a step does not leave is left by no number of steps -/
theorem after_of_fixed (m : Machine) (n : Nat) (s : State) (h : (m.step s).state = s) :
    m.after n s = s := by
  induction n with
  | zero => rfl
  | succ n ih => rw [after_succ, ih, h]

end Machine
end IPPcode24
