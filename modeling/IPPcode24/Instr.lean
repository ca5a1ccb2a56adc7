import IPPcode24.Operand

/-!
# Instructions

An instruction holds its operands in the shape of its opcode's signature, so none is malformed.
Opcodes that only differ in the value they compute share a constructor.

* `Unary`, `Binary`     what is computed from one value or two and stored
* `Instr.ofArgs`        the instruction of an opcode with operands of its signature
* `Instr.ofOperands`    the same from any list of operands: number, then kinds from the left
* `Instr.parse`         the same from the texts of the operands
* `Instr.opcode`, `Instr.operands`, `Instr.label?`, `Instr.text`   the way back
-/

namespace IPPcode24

/-! ## the shapes of instructions -/

inductive Channel where
  | stdout
  | stderr
deriving DecidableEq, Repr

inductive Unary where
  | move | not | int2char | strlen
deriving DecidableEq, Repr

inductive Binary where
  | add | sub | mul | idiv
  | lt | gt | eq
  | and | or
  | stri2int | concat | getChar
deriving DecidableEq, Repr

inductive Instr where
  | createFrame
  | pushFrame
  | popFrame
  | defVar (v : Var)
  | call (name : String)
  | ret
  | pushs (a : Symbol)
  | pops (dst : Var)
  | unary (f : Unary) (dst : Var) (a : Symbol)
  | binary (f : Binary) (dst : Var) (a b : Symbol)
  | setChar (dst : Var) (a b : Symbol)
  | type (dst : Var) (a : Symbol)
  | read (dst : Var) (t : Ty)
  /-- WRITE and DPRINT -/
  | print (channel : Channel) (a : Symbol)
  | label (name : String)
  | jump (name : String)
  /-- JUMPIFEQ jumps when the comparison is `true`, JUMPIFNEQ when it is `false` -/
  | jumpIf (verdict : Bool) (name : String) (a b : Symbol)
  | exit (a : Symbol)
  | brk
deriving DecidableEq, Repr

/-! ## opcode and operands -/

def Unary.opcode : Unary → Opcode
  | .move => .move
  | .not => .not
  | .int2char => .int2char
  | .strlen => .strlen

def Binary.opcode : Binary → Opcode
  | .add => .add
  | .sub => .sub
  | .mul => .mul
  | .idiv => .idiv
  | .lt => .lt
  | .gt => .gt
  | .eq => .eq
  | .and => .and
  | .or => .or
  | .stri2int => .stri2int
  | .concat => .concat
  | .getChar => .getChar

def Instr.opcode : Instr → Opcode
  | .createFrame => .createFrame
  | .pushFrame => .pushFrame
  | .popFrame => .popFrame
  | .defVar _ => .defVar
  | .call _ => .call
  | .ret => .ret
  | .pushs _ => .pushs
  | .pops _ => .pops
  | .unary f _ _ => f.opcode
  | .binary f _ _ _ => f.opcode
  | .setChar _ _ _ => .setChar
  | .type _ _ => .type
  | .read _ _ => .read
  | .print .stdout _ => .write
  | .print .stderr _ => .dprint
  | .label _ => .label
  | .jump _ => .jump
  | .jumpIf true _ _ _ => .jumpIfEq
  | .jumpIf false _ _ _ => .jumpIfNeq
  | .exit _ => .exit
  | .brk => .brk

def Symbol.operand : Symbol → Operand := Kind.symbol.operand

def Instr.operands : Instr → List Operand
  | .createFrame | .pushFrame | .popFrame | .ret | .brk => []
  | .defVar v | .pops v => [.var v]
  | .call name | .label name | .jump name => [.label name]
  | .pushs a | .print _ a | .exit a => [a.operand]
  | .unary _ dst a | .type dst a => [.var dst, a.operand]
  | .binary _ dst a b | .setChar dst a b => [.var dst, a.operand, b.operand]
  | .read dst t => [.var dst, .type t]
  | .jumpIf _ name a b => [.label name, a.operand, b.operand]

/-- the label that the instruction defines -/
def Instr.label? : Instr → Option String
  | .label name => some name
  | _ => none

/-- the words of the instruction in a program -/
def Instr.words (i : Instr) : List (List Char) :=
  i.opcode.mnemonic.toList :: i.operands.map fun o => o.text.toList

def Instr.text (i : Instr) : String := String.ofList (unwords i.words)

/-! ## from opcode and operands -/

def Instr.ofArgs : (op : Opcode) → Args op.signature → Instr
  | .move, (dst, a, _) => .unary .move dst a
  | .createFrame, _ => .createFrame
  | .pushFrame, _ => .pushFrame
  | .popFrame, _ => .popFrame
  | .defVar, (v, _) => .defVar v
  | .call, (name, _) => .call name
  | .ret, _ => .ret
  | .pushs, (a, _) => .pushs a
  | .pops, (dst, _) => .pops dst
  | .add, (dst, a, b, _) => .binary .add dst a b
  | .sub, (dst, a, b, _) => .binary .sub dst a b
  | .mul, (dst, a, b, _) => .binary .mul dst a b
  | .idiv, (dst, a, b, _) => .binary .idiv dst a b
  | .lt, (dst, a, b, _) => .binary .lt dst a b
  | .gt, (dst, a, b, _) => .binary .gt dst a b
  | .eq, (dst, a, b, _) => .binary .eq dst a b
  | .and, (dst, a, b, _) => .binary .and dst a b
  | .or, (dst, a, b, _) => .binary .or dst a b
  | .not, (dst, a, _) => .unary .not dst a
  | .int2char, (dst, a, _) => .unary .int2char dst a
  | .stri2int, (dst, a, b, _) => .binary .stri2int dst a b
  | .read, (dst, t, _) => .read dst t
  | .write, (a, _) => .print .stdout a
  | .concat, (dst, a, b, _) => .binary .concat dst a b
  | .strlen, (dst, a, _) => .unary .strlen dst a
  | .getChar, (dst, a, b, _) => .binary .getChar dst a b
  | .setChar, (dst, a, b, _) => .setChar dst a b
  | .type, (dst, a, _) => .type dst a
  | .label, (name, _) => .label name
  | .jump, (name, _) => .jump name
  | .jumpIfEq, (name, a, b, _) => .jumpIf true name a b
  | .jumpIfNeq, (name, a, b, _) => .jumpIf false name a b
  | .exit, (a, _) => .exit a
  | .dprint, (a, _) => .print .stderr a
  | .brk, _ => .brk

def Instr.ofOperands (op : Opcode) (os : List Operand) : Except Defect Instr :=
  (op.args os).map (Instr.ofArgs op)

def Instr.parse (op : Opcode) (ts : List (List Char)) : Except Defect Instr :=
  (op.parseArgs ts).map (Instr.ofArgs op)

theorem Instr.opcode_ofArgs (op : Opcode) (as : Args op.signature) :
    (Instr.ofArgs op as).opcode = op := by
  cases op <;> rfl

theorem Instr.operands_ofArgs (op : Opcode) (as : Args op.signature) :
    (Instr.ofArgs op as).operands = Args.operands op.signature as := by
  cases op <;> rfl

end IPPcode24
