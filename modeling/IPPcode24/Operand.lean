import IPPcode24.Literal
import IPPcode24.Variable

/-!
# Operands

* `Operand`         a variable, a label, a literal or the name of a type
* `Symbol`          what stands for a value: a variable or a literal
* `Kind.Arg k`      the operands that a position of kind `k` takes
* `Kind.accept? k`  an operand as one of kind `k`, if it is one
* `Kind.parse k`    the text of an operand of kind `k`
* `Args ks`         operands for the kinds `ks`, one each
* `Args.parse`, `Args.ofOperands`   the same from texts and from operands, the first failure wins
-/

namespace IPPcode24

inductive Operand where
  | var (v : Var)
  | label (name : String)
  | literal (v : Value)
  | type (t : Ty)
deriving DecidableEq, Repr

/-- the operand in a program; the text of a string literal is not escaped -/
def Operand.text : Operand → String
  | .var v => v.text
  | .label name => name
  | .literal v => v.written
  | .type t => t.name

inductive Symbol where
  | var (v : Var)
  | literal (v : Value)
deriving DecidableEq, Repr

/-! ## the operands of one kind -/

@[reducible] def Kind.Arg : Kind → Type
  | .var => Var
  | .symbol => Symbol
  | .label => String
  | .type => Ty

def Kind.operand : (k : Kind) → k.Arg → Operand
  | .var, v => .var v
  | .symbol, .var v => .var v
  | .symbol, .literal v => .literal v
  | .label, name => .label name
  | .type, t => .type t

def Kind.accept? : (k : Kind) → Operand → Option k.Arg
  | .var, .var v => some v
  | .symbol, .var v => some (.var v)
  | .symbol, .literal v => some (.literal v)
  | .label, .label name => some name
  | .type, .type t => some t
  | _, _ => none

/-- the operand may stand where kind `k` is expected -/
def Operand.fits (o : Operand) (k : Kind) : Bool := (k.accept? o).isSome

theorem Kind.accept?_operand (k : Kind) (a : k.Arg) : k.accept? (k.operand a) = some a := by
  cases k with
  | symbol => cases a <;> rfl
  | _ => rfl

theorem Kind.accept?_eq_some (k : Kind) (o : Operand) (a : k.Arg) :
    k.accept? o = some a ↔ o = k.operand a := by
  constructor
  · intro h
    cases k <;> cases o <;> cases h <;> rfl
  · rintro rfl
    exact k.accept?_operand a

/-- a symbol is a variable if a frame stands before the first `@`, else a literal -/
def Symbol.parse (s : List Char) : Except Defect Symbol :=
  match cutAt '@' s with
  | none => .error (.unknownLiteralType (String.ofList s))
  | some (before, after) =>
    match FrameName.ofText? before with
    | some f => (Var.named f after).map .var
    | none => (Value.ofLiteral before after).map .literal

/-- the name of a type that READ can produce -/
def Ty.parse (s : List Char) : Except Defect Ty :=
  match Ty.ofName? s with
  | some .int => .ok .int
  | some .bool => .ok .bool
  | some .string => .ok .string
  | some .nil | some .type | none => .error (.invalidTypeName (String.ofList s))

def Kind.parse : (k : Kind) → List Char → Except Defect k.Arg
  | .var, s => Var.parse s
  | .symbol, s => Symbol.parse s
  | .label, s => checkName s
  | .type, s => Ty.parse s

def Operand.parse (k : Kind) (s : List Char) : Except Defect Operand := (k.parse s).map k.operand

/-! ## the operands of an opcode -/

@[reducible] def Args : List Kind → Type
  | [] => Unit
  | k :: ks => k.Arg × Args ks

def Args.operands : (ks : List Kind) → Args ks → List Operand
  | [], _ => []
  | k :: ks, (a, as) => k.operand a :: Args.operands ks as

def Args.parse : (ks : List Kind) → (ts : List (List Char)) → ts.length = ks.length →
    Except Defect (Args ks)
  | [], [], _ => .ok ()
  | k :: ks, t :: ts, h => do
    let a ← k.parse t
    let as ← Args.parse ks ts (Nat.succ.inj h)
    pure (a, as)

/-- `position` is that of the first kind, for the report -/
def Args.ofOperands (op : Opcode) : (position : Nat) → (ks : List Kind) → (os : List Operand) →
    os.length = ks.length → Except Defect (Args ks)
  | _, [], [], _ => .ok ()
  | position, k :: ks, o :: os, h =>
    match k.accept? o with
    | none => .error (.operandKind (some op) position k)
    | some a => (Args.ofOperands op (position + 1) ks os (Nat.succ.inj h)).map fun as => (a, as)

def Opcode.parseArgs (op : Opcode) (ts : List (List Char)) : Except Defect (Args op.signature) :=
  if h : ts.length = op.signature.length then Args.parse op.signature ts h
  else .error (.operandCount op ts.length)

def Opcode.args (op : Opcode) (os : List Operand) : Except Defect (Args op.signature) :=
  if h : os.length = op.signature.length then Args.ofOperands op 1 op.signature os h
  else .error (.operandCount op os.length)

end IPPcode24
