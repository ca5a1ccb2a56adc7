import IPPcode24.Machine.Routine

/-!
# Steps and runs

* `Machine`          a program with its labels
* `Machine.load p`   the machine of a program, unless it defines a label twice
* `Machine.step`     one instruction: its routine, and then on to where the run goes on
* `Machine.run n`    at most `n` steps: up to a fault or a halt
* `Machine.resolve`  the value that an operand stands for in a state

A step past the last instruction halts with code 0, and a step of a halted state does nothing.  A
step that fails ends in the state that its routine left, at the same instruction.
-/

namespace IPPcode24

structure Machine where
  program : Program
  labels : Labels
  labels_eq : program.labels = .ok labels

namespace Machine

def load (p : Program) : Except Fault Machine :=
  match h : p.labels with
  | .ok labels => .ok ⟨p, labels, h⟩
  | .error f => .error f

end Machine

/-! ## one step -/

/-- a state, and the fault if the step to it failed -/
structure Stepped where
  state : State
  fault : Option Fault
deriving DecidableEq

/-- how a step ends, from how its routine does -/
def Stepped.ofResult : EStateM.Result Cause State Course → Stepped
  | .error c s => ⟨s, some ⟨s.pc, c⟩⟩
  | .ok c s => ⟨s.advance c, none⟩

namespace Machine

def step (m : Machine) (s : State) : Stepped :=
  match s.status with
  | .halted _ => ⟨s, none⟩
  | .running =>
    match m.program.get? s.pc with
    | none => ⟨{ s with status := .halted 0 }, none⟩
    | some r =>
      .ofResult (Routine.ofOpcode m.labels r.order r.instr.opcode r.instr.operands s)

end Machine

/-! ## runs -/

inductive Outcome where
  | exit (code : Fin 10)
  | fault (f : Fault)
deriving DecidableEq, Repr

namespace Machine

/-- the outcome of at most `n` steps, if they reach one, and the state after them -/
def run (m : Machine) : Nat → State → Option Outcome × State
  | 0, s => (none, s)
  | n + 1, s =>
    let r := m.step s
    match r.fault, r.state.status with
    | some f, _ => (some (.fault f), r.state)
    | none, .halted code => (some (.exit code), r.state)
    | none, .running => m.run n r.state

/-! ## operands -/

def resolve (m : Machine) (s : State) : Operand → Except Fault Value
  | .literal v => .ok v
  | .type t => .ok (.type t)
  | .var v =>
    match s.memory.frames.read v with
    | .ok x => .ok x
    | .error e => .error ⟨s.pc, .access e⟩
  | .label _ =>
    let op := (m.program.get? s.pc).map fun r => r.instr.opcode
    .error ⟨s.pc, .malformed (.operandKind op 1 .symbol)⟩

end Machine
end IPPcode24
