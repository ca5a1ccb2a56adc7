import IPPcode24.Channel.Output
import IPPcode24.Machine.Compute
import IPPcode24.Machine.Memory
import IPPcode24.Machine.Report

/-!
# Routines

What the machine runs.  A routine works on the state in place, one change after the other; what it
changed before it failed stays changed.  Operands are found by their position, counted from zero,
and an operand that is missing or of another kind than the routine expects is a malformed one.

* `Routine α`         a computation on a state that gives an `α` or fails with a cause
* `operand`, `var`, `target`, `symbol`, `label`, `typeName`   one operand
* `take`              what lies on top of a stack, or the cause of there being nothing
* `store`, `write`    into a variable, and to a channel
* `unary`, `binary`   the routines of opcodes that only differ in the value they compute
* `Routine.ofOpcode`   the routine of an opcode
-/

namespace IPPcode24

abbrev Routine (α : Type) : Type := EStateM Cause State α

namespace Routine

/-! ## the state -/

section
variable {α : Type}

def lift (r : Except Cause α) : Routine α :=
  match r with
  | .ok x => pure x
  | .error c => throw c

/-- something that the memory decides and that leaves it alone -/
def inspect (f : Memory → Except Cause α) : Routine α := do lift (f (← get).memory)

def change (f : Memory → Memory) : Routine Unit := modify fun s => { s with memory := f s.memory }

def ofOption (c : Cause) : Option α → Routine α
  | some x => pure x
  | none => throw c

/-- the memory moves on to `rest`, also if nothing was found in it -/
def take (found : Memory → Option α) (rest : Memory → Memory) (c : Cause) : Routine α := do
  let x := found (← get).memory
  change rest
  ofOption c x

end

def takeTemporary : Routine Frame :=
  take (fun m => m.frames.temporary)
    (fun m => { m with frames := { m.frames with temporary := none } }) (.access (.missingFrame .tf))

def takeLocal : Routine Frame :=
  take (fun m => m.frames.locals.head?)
    (fun m => { m with frames := { m.frames with locals := m.frames.locals.tail } })
    (.access (.missingFrame .lf))

def takeCall : Routine Nat :=
  take (fun m => m.calls.head?) (fun m => { m with calls := m.calls.tail }) .emptyCallStack

def takeData : Routine Value :=
  take (fun m => m.data.head?) (fun m => { m with data := m.data.tail }) .emptyDataStack

/-- a value of type `ty` from the input, which is nil if the input gives none -/
def takeInput (ty : Ty) : Routine Value := do
  let m := (← get).memory
  let (x, rest) := Input.read ty m.input
  change fun m => { m with input := rest }
  pure x

def store (dst : Var) (x : Value) : Routine Course := do
  let m ← inspect fun m => m.setVar dst x
  change fun _ => m
  pure .ahead

/-- the channel keeps what fits of the pieces, also if that is not all -/
def write (channel : Channel) (pieces : List Bytes) : Routine Course := do
  let (room, k) := ((← get).sink channel).write pieces
  modify fun s => s.setSink channel k
  if room then pure .ahead else throw .channelFull

/-! ## operands -/

section
variable (op : Opcode) (os : List Operand)

def operand (k : Nat) : Routine Operand :=
  match os[k]? with
  | some o => pure o
  | none => throw (.malformed (.operandCount op os.length))

def malformed {α : Type} (k : Nat) (expected : Kind) : Routine α :=
  throw (.malformed (.operandKind (some op) (k + 1) expected))

/-- the value of an operand; `k` is its position, for the report -/
def resolve (k : Nat) : Operand → Routine Value
  | .literal v => pure v
  | .type ty => pure (.type ty)
  | .var v => inspect fun m => m.value (.var v)
  | .label _ => malformed op k .symbol

def symbol (k : Nat) : Routine Value := do resolve op k (← operand op os k)

def var (k : Nat) : Routine Var := do
  match ← operand op os k with
  | .var v => pure v
  | _ => malformed op k .var

/-- a variable that is about to be written -/
def target (k : Nat) : Routine Var := do
  let v ← var op os k
  inspect fun m => m.checkTarget v
  pure v

def label (t : Labels) (k : Nat) : Routine Nat := do
  match ← operand op os k with
  | .label name => lift (t.target name)
  | _ => malformed op k .label

def typeName (k : Nat) : Routine Ty := do
  match ← operand op os k with
  | .type ty => pure ty
  | _ => malformed op k .type

/-! ## families of opcodes -/

def unary (f : Unary) : Routine Course := do
  let dst ← target op os 0
  let x ← symbol op os 1
  let y ← lift (f.apply x)
  store dst y

def binary (f : Binary) : Routine Course := do
  let dst ← target op os 0
  let x ← symbol op os 1
  let y ← symbol op os 2
  let z ← lift (f.apply x y)
  store dst z

def print (channel : Channel) : Routine Course := do
  let x ← symbol op os 0
  write channel (Output.value x)

/-- the label is looked up before the values, so it is missed even where the jump is not taken -/
def jumpIf (t : Labels) (verdict : Bool) : Routine Course := do
  let i ← label op os t 0
  let x ← symbol op os 1
  let y ← symbol op os 2
  let e ← lift (equal op x y)
  pure (if e = verdict then .goto i else .ahead)

end

/-! ## the routine of an opcode -/

/-- `order` is the order number of the instruction -/
def ofOpcode (t : Labels) (order : Nat) (op : Opcode) (os : List Operand) : Routine Course :=
  match op with
  | .createFrame => do
    change fun m => { m with frames := m.frames.create }
    pure .ahead
  | .pushFrame => do
    let f ← takeTemporary
    change fun m => { m with frames := { m.frames with locals := f :: m.frames.locals } }
    pure .ahead
  | .popFrame => do
    let f ← takeLocal
    change fun m => { m with frames := { m.frames with temporary := some f } }
    pure .ahead
  | .defVar => do
    let v ← var op os 0
    let fs ← inspect fun m => ofAccess (m.frames.declare v)
    change fun m => { m with frames := fs }
    pure .ahead
  | .call => do
    let i ← label op os t 0
    let pc := (← get).pc
    change fun m => m.pushCall (pc + 1)
    pure (.goto i)
  | .ret => do
    let i ← takeCall
    pure (.goto i)
  | .pushs => do
    let x ← symbol op os 0
    change fun m => m.pushData x
    pure .ahead
  | .pops => do
    let dst ← target op os 0
    let x ← takeData
    store dst x
  | .move => unary op os .move
  | .not => unary op os .not
  | .int2char => unary op os .int2char
  | .strlen => unary op os .strlen
  | .add => binary op os .add
  | .sub => binary op os .sub
  | .mul => binary op os .mul
  | .idiv => binary op os .idiv
  | .lt => binary op os .lt
  | .gt => binary op os .gt
  | .eq => binary op os .eq
  | .and => binary op os .and
  | .or => binary op os .or
  | .stri2int => binary op os .stri2int
  | .concat => binary op os .concat
  | .getChar => binary op os .getChar
  | .setChar => do
    let dst ← target op os 0
    let x ← inspect fun m => m.value (.var dst)
    let y ← symbol op os 1
    let z ← symbol op os 2
    let w ← lift (IPPcode24.setChar x y z)
    store dst w
  | .type => do
    let dst ← target op os 0
    let name ← match ← operand op os 1 with
      | .var v => inspect fun m => m.typeName (.var v)
      | o => (fun x => x.ty.name) <$> resolve op 0 o
    store dst (.string name)
  | .read => do
    let dst ← target op os 0
    let ty ← typeName op os 1
    let x ← takeInput ty
    store dst x
  | .write => print op os .stdout
  | .dprint => print op os .stderr
  | .label => pure .ahead
  | .jump => do
    let i ← label op os t 0
    pure (.goto i)
  | .jumpIfEq => jumpIf op os t true
  | .jumpIfNeq => jumpIf op os t false
  | .exit => do
    let x ← symbol op os 0
    let code ← lift (exitCode x)
    pure (.stop code)
  | .brk => do
    let s ← get
    write .stderr (Output.string (s.report order))

end Routine
end IPPcode24
