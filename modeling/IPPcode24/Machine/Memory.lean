import IPPcode24.Labels
import IPPcode24.Machine.State

/-!
# Access to the memory

* `Memory.checkTarget`, `value`, `typeName`   what instructions ask of variables and symbols
* `Memory.pushCall`, `popCall`, `pushData`, `popData`, `setVar`   the memory after an access
* `Labels.target`                             the index of a label

An access that fails gives no new memory.
-/

namespace IPPcode24

/-- a failed access as a cause -/
def ofAccess {α : Type} (r : Except AccessError α) : Except Cause α := r.mapError Cause.access

namespace Memory

/-- the target of an instruction is declared -/
def checkTarget (m : Memory) (dst : Var) : Except Cause Unit := ofAccess (m.frames.require dst)

def value (m : Memory) : Symbol → Except Cause Value
  | .literal v => .ok v
  | .var v => ofAccess (m.frames.read v)

/-- the name of the type of a symbol; a variable that holds nothing has the empty one -/
def typeName (m : Memory) : Symbol → Except Cause String
  | .literal v => .ok v.ty.name
  | .var v => do
    match ← ofAccess (m.frames.slot v) with
    | .uninitialized => .ok ""
    | .holds x => .ok x.ty.name

def pushCall (m : Memory) (i : Nat) : Memory := { m with calls := i :: m.calls }

/-- the return index on top, and the memory without it -/
def popCall (m : Memory) : Except Cause (Nat × Memory) :=
  match m.calls with
  | [] => .error .emptyCallStack
  | i :: calls => .ok (i, { m with calls := calls })

def pushData (m : Memory) (v : Value) : Memory := { m with data := v :: m.data }

/-- the value on top, and the memory without it -/
def popData (m : Memory) : Except Cause (Value × Memory) :=
  match m.data with
  | [] => .error .emptyDataStack
  | v :: data => .ok (v, { m with data := data })

def setVar (m : Memory) (dst : Var) (v : Value) : Except Cause Memory :=
  (ofAccess (m.frames.assign dst v)).map fun fs => { m with frames := fs }

end Memory

def Labels.target (t : Labels) (name : String) : Except Cause Nat :=
  match t.find? name with
  | some i => .ok i
  | none => .error (.undefinedLabel name)

end IPPcode24
