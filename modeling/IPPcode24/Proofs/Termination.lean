import Mathlib.Algebra.GroupWithZero.Nat
import IPPcode24.Proofs.Control
import IPPcode24.Proofs.Runs

/-!
# Programs that only go forward

A program whose calls and jumps all lead to later indices ends, although RETURN goes back and the
number of steps may be exponential.  What is left of a run is bounded by a weight of the index it is
at and of those it has to return to, where an index weighs more than twice as much as the next one.

* `Machine.Forward m`            calls and jumps go to later indices, if they go anywhere
* `Machine.weight m i`           a bound on the steps from the index `i` up to a RETURN that leaves it
* `Machine.potential m s`        the weights of the index that is next and of those on the call stack
* `Machine.Forward.passes`, `Machine.Forward.potential_lt`   **each step takes some of it**
* `Machine.Forward.finishes`     a run of more steps than that ends

Main statement, `Machine.forward_terminates`.
-/

namespace IPPcode24
namespace Machine

variable (m : Machine)

/-- a label that CALL or a jump names is that of a later index, if it is defined -/
def Forward : Prop :=
  ∀ i j : Fin m.program.size, ∀ name ∈ (m.instr? i).bind Instr.destination?,
    m.instr? j = some (.label name) → i < j

instance : Decidable m.Forward :=
  inferInstanceAs (Decidable (∀ i j : Fin m.program.size,
    ∀ name ∈ (m.instr? i).bind Instr.destination?, m.instr? j = some (.label name) → i < j))

theorem Forward.lt_of_find? (h : m.Forward) (i j : Nat) (x : Instr) (name : String)
    (hi : m.instr? i = some x) (hx : x.destination? = some name)
    (hj : m.labels.find? name = some j) : i < j := by
  have hlabel := (m.find?_label name j).mp hj
  refine h ⟨i, m.lt_size_of_instr? i x hi⟩ ⟨j, m.lt_size_of_instr? j _ hlabel⟩ name ?_ hlabel
  rw [hi]
  exact hx

/-! ## what is left of a run -/

def weight (i : Nat) : Nat := 2 ^ (m.program.size - i) - 1

/-- an index within the program weighs more than the next one twice -/
theorem weight_eq (i : Nat) (hi : i < m.program.size) :
    m.weight i = 2 * m.weight (i + 1) + 1 := by
  have hsub : m.program.size - i = (m.program.size - (i + 1)) + 1 := by omega
  have hpos : 0 < 2 ^ (m.program.size - (i + 1)) := Nat.two_pow_pos _
  rw [weight, weight, hsub, Nat.pow_succ]
  omega

theorem weight_le (i j : Nat) (h : i ≤ j) : m.weight j ≤ m.weight i :=
  Nat.sub_le_sub_right (Nat.pow_le_pow_right (by decide) (by omega)) 1

def potential (s : State) : Nat := m.weight s.pc + (s.memory.calls.map m.weight).sum

/-- an instruction that does not stop takes some of the potential -/
theorem Forward.passes (h : m.Forward) (s : State) (i : Instr) (hi : m.instr? s.pc = some i)
    (c : Course) (calls : List Nat) (hp : i.Passes m.labels s c calls)
    (hc : c.status = .running) :
    m.weight (c.pc s.pc) + (calls.map m.weight).sum < m.potential s := by
  have hnext := m.weight_eq s.pc (m.lt_size_of_instr? s.pc i hi)
  rw [potential]
  cases hp with
  | ahead =>
    show m.weight (s.pc + 1) + _ < _
    omega
  | jump _ name j hd hj =>
    have hlater : m.weight j ≤ m.weight (s.pc + 1) :=
      m.weight_le _ j (h.lt_of_find? m s.pc j i name hi hd hj)
    show m.weight j + _ < _
    omega
  | call name j hj =>
    -- the call and what follows its return weigh no more than the next index twice
    have hlater : m.weight j ≤ m.weight (s.pc + 1) :=
      m.weight_le _ j (h.lt_of_find? m s.pc j _ name hi rfl hj)
    rw [List.map_cons, List.sum_cons]
    show m.weight j + _ < _
    omega
  | ret j calls hcalls =>
    rw [hcalls, List.map_cons, List.sum_cons]
    show m.weight j + _ < _
    omega
  | stop a code => cases hc

/-- so does a step after which the run goes on -/
theorem Forward.potential_lt (h : m.Forward) (s u : State) (hstep : m.step s = ⟨u, none⟩)
    (hu : u.status = .running) : m.potential u < m.potential s := by
  have hs := m.stepTo_step s
  rw [hstep] at hs
  cases hs with
  | rest code hs => cases hu.symm.trans hs
  | halt hs hr => cases hu
  | done r e hs hr he ho =>
    have hp := (r.instr.effect_eq_ok m.labels s r.order e he).passes
    have hlt := h.passes m s r.instr (m.instr?_of_get? _ r hr) _ _ hp hu
    rwa [potential, State.perform_pc, State.perform_memory]

/-- a run of more steps than the potential ends -/
theorem Forward.finishes (h : m.Forward) (n : Nat) (s : State) (hn : m.potential s < n) :
    ∃ o t, m.run n s = (some o, t) := by
  induction n generalizing s with
  | zero => cases hn
  | succ n ih =>
    obtain ⟨o, t, ht⟩ | ⟨u, hstep, hu⟩ := m.run_succ_cases s
    · exact ⟨o, t, ht n⟩
    · have hlt := h.potential_lt m s u hstep hu
      rw [m.run_succ_of_running n s u hstep hu]
      exact ih u (by omega)

/-- **A program that only goes forward ends.**  If each label that JUMP, JUMPIFEQ, JUMPIFNEQ or CALL
names is not defined at all or is that of a later index, then with any input and any room for the
output the machine has halted or a step has failed after 2^n steps at most, where n is the number of
instructions. -/
theorem forward_terminates (h : m.Forward) (input : Bytes) (stdout stderr : Option Nat) (n : Nat)
    (hn : 2 ^ m.program.size ≤ n) :
    ∃ o t, m.run n (State.start input (Sink.new stdout) (Sink.new stderr)) = (some o, t) := by
  have hpos : 0 < 2 ^ m.program.size := Nat.two_pow_pos _
  refine h.finishes m n _ ?_
  show 2 ^ (m.program.size - 0) - 1 + 0 < n
  rw [Nat.sub_zero]
  omega

/-- each call returns to the next one, which runs the rest of the program once more -/
def forwardMachine : Machine :=
  ⟨Program.ofInstrs [.call "a", .label "a", .call "b", .label "b", .ret],
    ⟨[("a", 1), ("b", 3)]⟩, rfl⟩

theorem forward_terminates_calls :
    forwardMachine.Forward ∧ ∃ o t, forwardMachine.run 32
      (State.start [] (Sink.new none) (Sink.new none)) = (some o, t) := by
  have hforward : forwardMachine.Forward := by decide
  exact ⟨hforward, forwardMachine.forward_terminates hforward [] none none 32 (by decide)⟩

end Machine
end IPPcode24
