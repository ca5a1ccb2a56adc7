import IPPcode24.Fault
import IPPcode24.Instr

/-!
# Operations on values

* `Value.equal? a b`      the verdict of EQ and of the conditional jumps, where they have one
* `Value.compare? a b`    the order behind LT and GT, on two values of one ordered type
* `equal`, `order`        the same with the fault of an opcode where there is no verdict
* `position`, `charAt`    an index as a position in a string, and the character there
* `Unary.apply`, `Binary.apply`   the value that an instruction computes
* `setChar`               the string that SETCHAR makes
* `exitCode`              the code that EXIT takes

Integers have 64 bits and wrap around; a quotient is cut toward zero.  Strings are sequences of
characters and are compared by code point.
-/

namespace IPPcode24

/-! ## comparisons -/

/-- nil compares with everything, other values with those of their type -/
def Value.equal? (a b : Value) : Option Bool :=
  if a.ty = .nil ∨ b.ty = .nil ∨ a.ty = b.ty then some (decide (a = b)) else none

def Value.compare? : Value → Value → Option Ordering
  | .int a, .int b => some (compare a.toInt b.toInt)
  | .bool a, .bool b => some (compare a b)
  | .string a, .string b => some (compareOfLessAndEq a b)
  | _, _ => none

/-- the order of two values, as the opcode needs it -/
def order (op : Opcode) (a b : Value) : Except Cause Ordering :=
  match a.compare? b with
  | some o => .ok o
  | none => .error (.operandTypes op [a.ty, b.ty])

/-- the verdict on two values, as the opcode needs it -/
def equal (op : Opcode) (a b : Value) : Except Cause Bool :=
  match a.equal? b with
  | some e => .ok e
  | none => .error (.operandTypes op [a.ty, b.ty])

/-! ## characters -/

def charOfCode? (n : Int64) : Option Char :=
  if 0 ≤ n.toInt ∧ n.toInt.toNat.isValidChar then some (Char.ofNat n.toInt.toNat) else none

/-- the position that an index stands for in a string of some length -/
def position (i : Int64) (length : Nat) : Except Cause Nat :=
  if 0 ≤ i.toInt ∧ i.toInt.toNat < length then .ok i.toInt.toNat else .error (.index i length)

/-- the index is checked first, and no character at a position that was checked is a failure too -/
def charAt (s : String) (i : Int64) : Except Cause Char := do
  let k ← position i s.length
  match s.toList[k]? with
  | some c => .ok c
  | none => .error (.index i s.length)

/-- the character to put in a string -/
def replacement (s : String) : Except Cause Char :=
  match s.toList with
  | [] => .error .emptyReplacement
  | c :: _ => .ok c

def charString (c : Char) : Value := .string (String.ofList [c])

/-! ## results -/

def Unary.apply : Unary → Value → Except Cause Value
  | .move, a => .ok a
  | .not, .bool b => .ok (.bool !b)
  | .int2char, .int n =>
    match charOfCode? n with
    | some c => .ok (charString c)
    | none => .error (.charCode n)
  | .strlen, .string s => .ok (.int (Int64.ofNat s.length))
  | f, a => .error (.operandTypes f.opcode [a.ty])

def Binary.apply : Binary → Value → Value → Except Cause Value
  | .add, .int a, .int b => .ok (.int (a + b))
  | .sub, .int a, .int b => .ok (.int (a - b))
  | .mul, .int a, .int b => .ok (.int (a * b))
  | .idiv, .int a, .int b => if b = 0 then .error .divisionByZero else .ok (.int (a / b))
  | .lt, a, b => (order .lt a b).map fun o => .bool o.isLT
  | .gt, a, b => (order .gt a b).map fun o => .bool o.isGT
  | .eq, a, b => (equal .eq a b).map .bool
  | .and, .bool a, .bool b => .ok (.bool (a && b))
  | .or, .bool a, .bool b => .ok (.bool (a || b))
  | .stri2int, .string s, .int i => (charAt s i).map fun c => .int (Int64.ofNat c.toNat)
  | .concat, .string s, .string t => .ok (.string (s ++ t))
  | .getChar, .string s, .int i => (charAt s i).map charString
  | f, a, b => .error (.operandTypes f.opcode [a.ty, b.ty])

/-- the first string with the character at an index replaced by the first one of the second -/
def setChar : Value → Value → Value → Except Cause Value
  | .string s, .int i, .string r => do
    let k ← position i s.length
    let c ← replacement r
    .ok (.string (String.ofList (s.toList.set k c)))
  | a, b, c => .error (.operandTypes .setChar [a.ty, b.ty, c.ty])

def exitCode : Value → Except Cause (Fin 10)
  | .int n =>
    if h : 0 ≤ n.toInt ∧ n.toInt ≤ 9 then .ok ⟨n.toInt.toNat, by omega⟩ else .error (.exitCode n)
  | a => .error (.operandTypes .exit [a.ty])

end IPPcode24
