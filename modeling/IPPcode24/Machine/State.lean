import IPPcode24.Channel.Input
import IPPcode24.Channel.Sink
import IPPcode24.Frames
import IPPcode24.Instr

/-!
# The state of a run

* `Memory`        what instructions compute on: frames, return indices, data stack, remaining input
* `Status`        running, or halted with a code from 0 to 9
* `State`         a memory, the index of the next instruction, the number of instructions executed,
                  the status, and the two output channels
* `State.start`   the state in which a run starts
* `Course`        where the run goes on after an instruction, and `State.advance` the state there

Both stacks have their top first.
-/

namespace IPPcode24

structure Memory where
  frames : Frames
  calls : List Nat
  data : List Value
  input : Bytes
deriving DecidableEq

inductive Status where
  | running
  | halted (code : Fin 10)
deriving DecidableEq, Repr

structure State where
  memory : Memory
  pc : Nat
  executed : Nat
  status : Status
  stdout : Sink
  stderr : Sink
deriving DecidableEq

namespace State

def start (input : Bytes) (stdout stderr : Sink) : State :=
  ⟨⟨Frames.empty, [], [], input⟩, 0, 0, .running, stdout, stderr⟩

def sink (s : State) : Channel → Sink
  | .stdout => s.stdout
  | .stderr => s.stderr

/-- the state with another sink for a channel -/
def setSink (s : State) (c : Channel) (k : Sink) : State :=
  match c with
  | .stdout => { s with stdout := k }
  | .stderr => { s with stderr := k }

/-- the state after bytes are written to a channel, which keeps what fits -/
def push (s : State) (c : Channel) (b : Bytes) : State :=
  match c with
  | .stdout => { s with stdout := s.stdout.push b }
  | .stderr => { s with stderr := s.stderr.push b }

end State

/-! ## from one instruction to the next -/

inductive Course where
  | ahead
  | goto (index : Nat)
  | stop (code : Fin 10)
deriving DecidableEq, Repr

/-- the index of the next instruction after the one at `pc` -/
def Course.pc (c : Course) (pc : Nat) : Nat :=
  match c with
  | .ahead => pc + 1
  | .goto index => index
  | .stop _ => pc

def Course.status : Course → Status
  | .ahead => .running
  | .goto _ => .running
  | .stop code => .halted code

theorem Course.status_eq_halted (c : Course) (code : Fin 10) :
    c.status = .halted code ↔ c = .stop code := by
  cases c with
  | stop code' => rw [status, Status.halted.injEq, Course.stop.injEq]
  | _ => exact ⟨fun h => (nomatch h), fun h => (nomatch h)⟩

def State.advance (s : State) (c : Course) : State :=
  { s with pc := c.pc s.pc, executed := s.executed + 1, status := c.status }

end IPPcode24
