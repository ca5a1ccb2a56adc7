import IPPcode24.Proofs.Control
import Mathlib.Data.List.DropRight

/-!
# Stack discipline

* `StackMove l l'`             what one instruction may do to a stack: nothing, a push, or a pop
* `rtake_of_moves`             what a stack never sinks below is left as it was
* `lt_of_sinking`              a stack does not sink below a height without coming to it
* `Machine.calls_step`, `Machine.data_step`   every step moves the two stacks in this way
* `Machine.calls_of_pop`       a call stack that shrinks gives the position to go on from

Main statement, `Machine.stack_discipline`: a CALL is returned from to the place behind it, and the
data that a run does not reach down to stays.
-/

namespace IPPcode24

/-! ## along a run -/

theorem eq_of_steps {β : Type} (g : Nat → β) (a b : Nat) (hab : a ≤ b)
    (h : ∀ k < b, a ≤ k → g (k + 1) = g k) : g b = g a := by
  induction b, hab using Nat.le_induction with
  | base => rfl
  | succ b hab ih =>
    rw [h b (Nat.lt_succ_self b) hab]
    exact ih fun k hk => h k (Nat.lt_succ_of_lt hk)

/-- what sinks by one at most does not come below a height without coming to it -/
theorem lt_of_sinking (g : Nat → Nat) (hg : ∀ k, g k ≤ g (k + 1) + 1) (d a b : Nat) (hab : a ≤ b)
    (ha : d < g a) (h : ∀ k ≤ b, a < k → g k ≠ d) : d < g b := by
  induction b, hab using Nat.le_induction with
  | base => exact ha
  | succ b hab ih =>
    have hb := ih fun k hk => h k (Nat.le_succ_of_le hk)
    have hne := h (b + 1) (Nat.le_refl _) (Nat.lt_succ_of_le hab)
    have hmove := hg b
    omega

/-! ## stacks that move -/

inductive StackMove {α : Type} : List α → List α → Prop where
  | keep (l : List α) : StackMove l l
  | push (x : α) (l : List α) : StackMove l (x :: l)
  | pop (x : α) (l : List α) : StackMove (x :: l) l

section
variable {α : Type}

theorem rtake_length (l : List α) : l.rtake l.length = l := by
  rw [List.rtake, Nat.sub_self, List.drop_zero]

theorem rtake_cons_of_le (x : α) (l : List α) (d : Nat) (h : d ≤ l.length) :
    (x :: l).rtake d = l.rtake d := by
  have hd : l.length + 1 - d = (l.length - d) + 1 := by omega
  rw [List.rtake, List.rtake, List.length_cons, hd, List.drop_succ_cons]

theorem StackMove.length_le (l l' : List α) (h : StackMove l l') : l.length ≤ l'.length + 1 := by
  cases h with
  | keep => omega
  | push x => rw [List.length_cons]; omega
  | pop x => rw [List.length_cons]

theorem StackMove.rtake_eq (l l' : List α) (h : StackMove l l') (d : Nat) (hl : d ≤ l.length)
    (hl' : d ≤ l'.length) : l'.rtake d = l.rtake d := by
  cases h with
  | keep => rfl
  | push x => exact rtake_cons_of_le x l d hl
  | pop x => exact (rtake_cons_of_le x l' d hl').symm

/-- what a stack never sinks below is left as it was -/
theorem rtake_of_moves (f : Nat → List α) (hf : ∀ k, StackMove (f k) (f (k + 1))) (d a b : Nat)
    (hab : a ≤ b) (h : ∀ k ≤ b, a ≤ k → d ≤ (f k).length) : (f b).rtake d = (f a).rtake d := by
  refine eq_of_steps (fun k => (f k).rtake d) a b hab fun k hk hak => ?_
  exact (hf k).rtake_eq _ _ d (h k (Nat.le_of_lt hk) hak) (h (k + 1) hk (Nat.le_succ_of_le hak))

end

/-! ## the stacks of the machine -/

namespace Instr.HasEffect

variable (t : Labels) (s : State) (order : Nat) (i : Instr) (e : Effect)

theorem calls_move (h : i.HasEffect t s order e) : StackMove s.memory.calls e.memory.calls := by
  cases h with
  | call name j hj => exact .push (s.pc + 1) _
  | ret j calls hc => rw [hc]; exact .pop j calls
  | _ => exact .keep _

theorem data_move (h : i.HasEffect t s order e) : StackMove s.memory.data e.memory.data := by
  cases h with
  | pushs a x hx => exact .push x _
  | pops dst x data fs ht hd hf => rw [hd]; exact .pop x data
  | _ => exact .keep _

end Instr.HasEffect

namespace Machine

variable (m : Machine) (s : State)

theorem calls_step : StackMove s.memory.calls (m.step s).state.memory.calls := by
  cases hx : m.executes s with
  | true =>
    obtain ⟨r, e, _, he, hstep⟩ := m.step_of_executes s hx
    rw [hstep]
    exact he.calls_move
  | false =>
    rw [(m.step_of_not_executes s hx).1]
    exact .keep _

theorem data_step : StackMove s.memory.data (m.step s).state.memory.data := by
  cases hx : m.executes s with
  | true =>
    obtain ⟨r, e, _, he, hstep⟩ := m.step_of_executes s hx
    rw [hstep]
    exact he.data_move
  | false =>
    rw [(m.step_of_not_executes s hx).1]
    exact .keep _

/-- a call stack that shrinks gives the position to go on from -/
theorem calls_of_pop (h : (m.step s).state.memory.calls.length < s.memory.calls.length) :
    s.memory.calls = (m.step s).state.pc :: (m.step s).state.memory.calls := by
  cases hx : m.executes s with
  | true =>
    obtain ⟨r, e, _, he, hstep⟩ := m.step_of_executes s hx
    rw [hstep] at h ⊢
    dsimp only at h ⊢
    rw [State.perform_memory] at h ⊢
    rw [State.perform_pc]
    have hp := he.passes
    generalize r.instr = i, e.course = c, e.memory.calls = calls at hp h ⊢
    cases hp with
    | ret j _ hc => exact hc
    | call name j hj => exact absurd h (Nat.not_lt.mpr (Nat.le_succ _))
    | _ => exact absurd h (Nat.lt_irrefl _)
  | false =>
    rw [(m.step_of_not_executes s hx).1] at h
    exact absurd h (Nat.lt_irrefl _)

/-- a CALL that is executed pushes the position behind it -/
theorem calls_of_call (name : String) (hi : m.instr? s.pc = some (.call name))
    (hx : m.executes s = true) :
    (m.step s).state.memory.calls = (s.pc + 1) :: s.memory.calls := by
  obtain ⟨r, e, hr, he, hstep⟩ := m.step_of_executes s hx
  rw [m.instr?_of_get? s.pc r hr] at hi
  rw [Option.some.inj hi] at he
  rw [hstep]
  cases he with
  | call name j hj => rfl

/-! ## whole runs -/

/-- where a CALL that is executed comes back to -/
theorem returns_behind_call (name : String) (hi : m.instr? s.pc = some (.call name))
    (hx : m.executes s = true) (n : Nat) (hn : 0 < n)
    (hlen : (m.after n s).memory.calls.length = s.memory.calls.length)
    (hfirst : ∀ k < n, 0 < k → (m.after k s).memory.calls.length ≠ s.memory.calls.length) :
    (m.after n s).pc = s.pc + 1 ∧ (m.after n s).memory.calls = s.memory.calls := by
  have hmoves : ∀ k, StackMove (m.after k s).memory.calls (m.after (k + 1) s).memory.calls :=
    fun k => m.calls_step (m.after k s)
  have hcall : (m.after 1 s).memory.calls = (s.pc + 1) :: s.memory.calls :=
    m.calls_of_call s name hi hx
  have hcall_length : (m.after 1 s).memory.calls.length = s.memory.calls.length + 1 := by
    rw [hcall, List.length_cons]
  -- the run comes back with step `j + 1`, and not with the first one
  obtain ⟨j, rfl⟩ : ∃ j, n = j + 1 := ⟨n - 1, by omega⟩
  have hj : 1 ≤ j := by
    refine Nat.pos_of_ne_zero ?_
    rintro rfl
    have hone : (m.after 1 s).memory.calls.length = s.memory.calls.length := hlen
    omega
  -- up to there the stack is above its height at the CALL, and so it keeps what the CALL pushed
  have habove : ∀ b, 1 ≤ b → b ≤ j → s.memory.calls.length < (m.after b s).memory.calls.length := by
    intro b hb hbj
    refine lt_of_sinking (fun k => (m.after k s).memory.calls.length)
      (fun k => (hmoves k).length_le) _ 1 b hb (by omega) fun k hk hk1 => ?_
    exact hfirst k (by omega) (by omega)
  have hkept := rtake_of_moves _ hmoves (s.memory.calls.length + 1) 1 j hj
    fun k hk hk1 => habove k hk1 hk
  -- the last step takes exactly that off
  have hpop : (m.after j s).memory.calls
      = (m.after (j + 1) s).pc :: (m.after (j + 1) s).memory.calls := by
    refine m.calls_of_pop (m.after j s) ?_
    have hlt := habove j hj (Nat.le_refl j)
    show (m.after (j + 1) s).memory.calls.length < _
    omega
  have hj_length : (m.after j s).memory.calls.length = s.memory.calls.length + 1 := by
    rw [hpop, List.length_cons, hlen]
  have htop : (m.after (j + 1) s).pc :: (m.after (j + 1) s).memory.calls
      = (s.pc + 1) :: s.memory.calls :=
    calc
      _ = (m.after j s).memory.calls := hpop.symm
      _ = (m.after j s).memory.calls.rtake (s.memory.calls.length + 1) := by
        rw [← hj_length, rtake_length]
      _ = (m.after 1 s).memory.calls.rtake (s.memory.calls.length + 1) := hkept
      _ = (s.pc + 1) :: s.memory.calls := by
        rw [← hcall_length, rtake_length, hcall]
  rw [List.cons.injEq] at htop
  exact htop

/-- **Stack discipline.**  From a CALL that is executed, the first state in which the call stack has
its height again stands behind the CALL, with the stack as it was, whatever ran in between.  The
values at the bottom of the data stack that a part of a run never reaches down to are the same at its
end as at its beginning. -/
theorem stack_discipline :
    (∀ name, m.instr? s.pc = some (.call name) → m.executes s = true → ∀ n, 0 < n →
      (m.after n s).memory.calls.length = s.memory.calls.length →
      (∀ k < n, 0 < k → (m.after k s).memory.calls.length ≠ s.memory.calls.length) →
      (m.after n s).pc = s.pc + 1 ∧ (m.after n s).memory.calls = s.memory.calls) ∧
    (∀ d a b, a ≤ b → (∀ k ≤ b, a ≤ k → d ≤ (m.after k s).memory.data.length) →
      (m.after b s).memory.data.rtake d = (m.after a s).memory.data.rtake d) := by
  constructor
  · intro name hi hx n hn hlen hfirst
    exact m.returns_behind_call s name hi hx n hn hlen hfirst
  · intro d a b hab h
    have hmoves : ∀ k, StackMove (m.after k s).memory.data (m.after (k + 1) s).memory.data :=
      fun k => m.data_step (m.after k s)
    exact rtake_of_moves _ hmoves d a b hab h

/-- a function that calls itself once, on top of a value of the caller -/
def recursiveMachine : Machine :=
  ⟨Program.ofInstrs [.defVar ⟨.gf, "again"⟩, .unary .move ⟨.gf, "again"⟩ (.literal (.bool true)),
    .pushs (.literal (.int 7)), .jump "main",
    .label "f", .pushs (.var ⟨.gf, "again"⟩),
    .jumpIf false "back" (.var ⟨.gf, "again"⟩) (.literal (.bool true)),
    .unary .move ⟨.gf, "again"⟩ (.literal (.bool false)), .call "f",
    .label "back", .pops ⟨.gf, "again"⟩, .ret,
    .label "main", .call "f"], ⟨[("f", 4), ("back", 9), ("main", 12)]⟩, rfl⟩

theorem stack_discipline_recursive :
    let s := recursiveMachine.after 5 (State.start [] (Sink.new none) (Sink.new none))
    s.memory.calls = [] ∧ (recursiveMachine.after 6 s).memory.calls = [9, 14] ∧
      (recursiveMachine.after 15 s).pc = 14 ∧ (recursiveMachine.after 15 s).memory.calls = [] ∧
      (recursiveMachine.after 15 s).memory.data.rtake 1 = [.int 7] := by
  intro s
  obtain ⟨hcall, hdata⟩ := recursiveMachine.stack_discipline s
  have hs : s.memory.calls = [] := by decide
  obtain ⟨hpc, hcalls⟩ := hcall "f" (by decide) (by decide) 15 (by decide) (by decide) (by decide)
  have hbottom := hdata 1 0 15 (by decide) (by decide)
  exact ⟨hs, by decide, by rw [hpc]; decide, by rw [hcalls, hs], by rw [hbottom]; decide⟩

end Machine
end IPPcode24
