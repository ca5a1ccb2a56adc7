import IPPcode24.Proofs.Steps

/-!
# Runs

A run of a number of steps either has an outcome, and then all longer ones have the same, or it is
unfinished and can be continued from where it is.

* `Machine.run_succ_of_fault`, `run_succ_of_halted`, `run_succ_of_running`   the first step of a run
* `Machine.run_add_of_unfinished`    an unfinished run goes on from its last state
* `Machine.run_add_of_finished`      a finished one does not go on
* `Machine.run_unique`               two finished runs from one state end alike
* `Machine.run_fst_eq`               runs of which all steps end alike do so too
* `Machine.exists_last_step`         a finished run is an unfinished one and a last step
* `Machine.fault_of_last_step`       a run that fails does so in its last step
* `Machine.pc_of_last_step`          the last step stays where it is
-/

namespace IPPcode24
namespace Machine

variable (m : Machine) (n : Nat) (s t : State)

/-! ## the first step -/

theorem run_succ_of_fault (f : Fault) (h : m.step s = ⟨t, some f⟩) :
    m.run (n + 1) s = (some (.fault f), t) := by
  rw [run, h]

theorem run_succ_of_halted (code : Fin 10) (h : m.step s = ⟨t, none⟩)
    (ht : t.status = .halted code) : m.run (n + 1) s = (some (.exit code), t) := by
  rw [run, h]
  dsimp only
  rw [ht]

theorem run_succ_of_running (h : m.step s = ⟨t, none⟩) (ht : t.status = .running) :
    m.run (n + 1) s = m.run n t := by
  rw [run, h]
  dsimp only
  rw [ht]

/-- after its first step a run has an outcome, or it goes on -/
theorem run_succ_cases :
    (∃ o u, ∀ k, m.run (k + 1) s = (some o, u)) ∨
      ∃ u, m.step s = ⟨u, none⟩ ∧ u.status = .running := by
  cases hstep : m.step s with
  | mk u fault =>
    cases fault with
    | some f => exact .inl ⟨_, u, fun k => m.run_succ_of_fault k s u f hstep⟩
    | none =>
      cases hu : u.status with
      | halted code => exact .inl ⟨_, u, fun k => m.run_succ_of_halted k s u code hstep hu⟩
      | running => exact .inr ⟨u, rfl, hu⟩

/-- an unfinished run has a first step that goes on -/
theorem unfinished_succ (h : m.run (n + 1) s = (none, t)) :
    ∃ u, m.step s = ⟨u, none⟩ ∧ u.status = .running ∧ m.run n u = (none, t) := by
  obtain ⟨o, u, hu⟩ | ⟨u, hstep, hu⟩ := m.run_succ_cases s
  · rw [hu n] at h
    cases h
  · rw [m.run_succ_of_running n s u hstep hu] at h
    exact ⟨u, hstep, hu, h⟩

/-! ## longer runs -/

theorem run_add_of_unfinished (k : Nat) (h : m.run n s = (none, t)) :
    m.run (n + k) s = m.run k t := by
  induction n generalizing s with
  | zero =>
    cases h
    rw [Nat.zero_add]
  | succ n ih =>
    obtain ⟨u, hstep, hu, h⟩ := m.unfinished_succ n s t h
    rw [Nat.add_right_comm, m.run_succ_of_running _ s u hstep hu, ih u h]

theorem run_add_of_finished (k : Nat) (o : Outcome) (h : m.run n s = (some o, t)) :
    m.run (n + k) s = (some o, t) := by
  induction n generalizing s with
  | zero => cases h
  | succ n ih =>
    rw [Nat.add_right_comm]
    obtain ⟨o', u, hu⟩ | ⟨u, hstep, hu⟩ := m.run_succ_cases s
    · rw [hu n] at h
      rw [hu (n + k), h]
    · rw [m.run_succ_of_running n s u hstep hu] at h
      rw [m.run_succ_of_running _ s u hstep hu, ih u h]

theorem run_unique (k : Nat) (u : State) (o o' : Outcome) (h : m.run n s = (some o, t))
    (h' : m.run k s = (some o', u)) : o' = o ∧ u = t := by
  have hn := m.run_add_of_finished n s t k o h
  have hk := m.run_add_of_finished k s u n o' h'
  rw [Nat.add_comm, hn] at hk
  cases hk
  exact ⟨rfl, rfl⟩

/-- a run that has not ended is running, if it was so at its start -/
theorem running_of_unfinished (hs : s.status = .running) (h : m.run n s = (none, t)) :
    t.status = .running := by
  induction n generalizing s with
  | zero =>
    cases h
    exact hs
  | succ n ih =>
    obtain ⟨u, _, hu, h⟩ := m.unfinished_succ n s t h
    exact ih u hu h

theorem after_step : m.after n (m.step s).state = m.after (n + 1) s := by
  induction n with
  | zero => rfl
  | succ n ih => rw [after_succ, ih, ← after_succ]

/-- the state of an unfinished run is that after its steps -/
theorem after_of_unfinished (h : m.run n s = (none, t)) : m.after n s = t := by
  induction n generalizing s with
  | zero =>
    cases h
    rfl
  | succ n ih =>
    obtain ⟨u, hstep, _, h⟩ := m.unfinished_succ n s t h
    rw [← after_step, hstep]
    exact ih u h

/-- runs whose steps fail alike and come to the same status have the same outcome -/
theorem run_fst_eq (m' : Machine) (s' : State)
    (h : ∀ k, (m'.step (m'.after k s')).fault = (m.step (m.after k s)).fault ∧
      (m'.after (k + 1) s').status = (m.after (k + 1) s).status) :
    (m'.run n s').1 = (m.run n s).1 := by
  induction n generalizing s s' with
  | zero => rfl
  | succ n ih =>
    obtain ⟨hfault, hstatus⟩ := h 0
    have hnext := ih (m.step s).state (m'.step s').state fun k => by
      rw [after_step, after_step, after_step, after_step]
      exact h (k + 1)
    rw [after_succ, after_succ] at hstatus
    rw [after, after] at hfault hstatus
    rw [run, run, hfault, hstatus]
    cases (m.step s).fault with
    | some f => rfl
    | none =>
      cases (m.step s).state.status with
      | halted code => rfl
      | running => exact hnext

/-! ## the last step -/

theorem exists_last_step (o : Outcome) (h : m.run n s = (some o, t)) :
    ∃ k u, k < n ∧ m.run k s = (none, u) ∧ m.run 1 u = (some o, t) := by
  induction n generalizing s with
  | zero => cases h
  | succ n ih =>
    obtain ⟨o', u, hu⟩ | ⟨u, hstep, hu⟩ := m.run_succ_cases s
    · rw [hu n] at h
      refine ⟨0, s, Nat.succ_pos n, rfl, ?_⟩
      rw [hu 0, h]
    · rw [m.run_succ_of_running n s u hstep hu] at h
      obtain ⟨k, v, hk, hv, hlast⟩ := ih u h
      refine ⟨k + 1, v, Nat.succ_lt_succ hk, ?_, hlast⟩
      rw [m.run_succ_of_running k s u hstep hu, hv]

/-- a run that fails does so in its last step -/
theorem fault_of_last_step (f : Fault) (h : m.run 1 s = (some (.fault f), t)) :
    (m.step s).fault = some f := by
  cases hstep : m.step s with
  | mk u fault =>
    cases fault with
    | some g =>
      rw [m.run_succ_of_fault 0 s u g hstep] at h
      cases h
      rfl
    | none =>
      cases hu : u.status with
      | halted code =>
        rw [m.run_succ_of_halted 0 s u code hstep hu] at h
        cases h
      | running =>
        rw [m.run_succ_of_running 0 s u hstep hu] at h
        cases h

/-- the last step stays where it is -/
theorem pc_of_last_step (o : Outcome) (h : m.run 1 s = (some o, t)) : t.pc = s.pc := by
  have hs := m.stepTo_step s
  generalize hu : m.step s = u at hs
  cases hs with
  | rest code hs =>
    rw [m.run_succ_of_halted 0 s s code hu hs] at h
    cases h
    rfl
  | halt hs hr =>
    rw [m.run_succ_of_halted 0 s _ 0 hu rfl] at h
    cases h
    rfl
  | fail r c hs hr hc =>
    rw [m.run_succ_of_fault 0 s _ _ hu] at h
    cases h
    rfl
  | full r e hs hr he ho =>
    rw [m.run_succ_of_fault 0 s _ _ hu] at h
    cases h
    exact s.emit_pc _
  | done r e hs hr he ho =>
    cases hc : (s.perform e).status with
    | running =>
      rw [m.run_succ_of_running 0 s _ hu hc] at h
      cases h
    | halted code =>
      rw [m.run_succ_of_halted 0 s _ code hu hc] at h
      cases h
      rw [State.perform_status, Course.status_eq_halted] at hc
      rw [State.perform_pc, hc]
      rfl

end Machine
end IPPcode24
