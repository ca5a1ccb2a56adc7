import IPPcode24.Fault
import IPPcode24.Program

/-!
# Labels

* `definitions n is`   the labels that the instructions define, with their indices from `n` on
* `Labels`             the definitions of a program, each name once
* `Program.labels p`   its labels; a name that is defined twice is a fault at the second place
-/

namespace IPPcode24

def definitions (n : Nat) : List Instr → List (String × Nat)
  | [] => []
  | i :: is =>
    match i.label? with
    | some name => (name, n) :: definitions (n + 1) is
    | none => definitions (n + 1) is

/-- the first definition of a name that is in `seen` or was defined before -/
def firstRedefined (seen : List String) : List (String × Nat) → Option (String × Nat)
  | [] => none
  | d :: ds => if d.1 ∈ seen then some d else firstRedefined (d.1 :: seen) ds

structure Labels where
  entries : List (String × Nat)
deriving DecidableEq, Repr

def Labels.find? (t : Labels) (name : String) : Option Nat := t.entries.lookup name

def Labels.size (t : Labels) : Nat := t.entries.length

def Program.labels (p : Program) : Except Fault Labels :=
  let ds := definitions 0 p.instrs
  match firstRedefined [] ds with
  | some (name, i) => .error ⟨i, .duplicateLabel name⟩
  | none => .ok ⟨ds⟩

end IPPcode24
