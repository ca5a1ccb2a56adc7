import IPPcode24.Text.Case

/-!
# Opcodes and their signatures

* `Kind`               what may stand in an operand position
* `Opcode`             the 35 operations, `Opcode.all` in the order of the instruction set
* `Opcode.mnemonic`, `Opcode.ofMnemonic?`   the name in a program, read without regard to ASCII case
* `Opcode.signature`   the kinds of the operands
-/

namespace IPPcode24

inductive Kind where
  /-- a variable -/
  | var
  /-- a variable or a literal -/
  | symbol
  /-- the name of a label -/
  | label
  /-- the name of a type that READ can produce -/
  | type
deriving DecidableEq, Repr

def Kind.name : Kind → String
  | .var => "variable"
  | .symbol => "symbol"
  | .label => "label"
  | .type => "type"

inductive Opcode where
  | move | createFrame | pushFrame | popFrame | defVar | call | ret
  | pushs | pops
  | add | sub | mul | idiv
  | lt | gt | eq
  | and | or | not
  | int2char | stri2int
  | read | write
  | concat | strlen | getChar | setChar
  | type
  | label | jump | jumpIfEq | jumpIfNeq | exit
  | dprint | brk
deriving DecidableEq, Repr

def Opcode.all : List Opcode :=
  [.move, .createFrame, .pushFrame, .popFrame, .defVar, .call, .ret, .pushs, .pops, .add, .sub,
   .mul, .idiv, .lt, .gt, .eq, .and, .or, .not, .int2char, .stri2int, .read, .write, .concat,
   .strlen, .getChar, .setChar, .type, .label, .jump, .jumpIfEq, .jumpIfNeq, .exit, .dprint, .brk]

def Opcode.mnemonic : Opcode → String
  | .move => "MOVE"
  | .createFrame => "CREATEFRAME"
  | .pushFrame => "PUSHFRAME"
  | .popFrame => "POPFRAME"
  | .defVar => "DEFVAR"
  | .call => "CALL"
  | .ret => "RETURN"
  | .pushs => "PUSHS"
  | .pops => "POPS"
  | .add => "ADD"
  | .sub => "SUB"
  | .mul => "MUL"
  | .idiv => "IDIV"
  | .lt => "LT"
  | .gt => "GT"
  | .eq => "EQ"
  | .and => "AND"
  | .or => "OR"
  | .not => "NOT"
  | .int2char => "INT2CHAR"
  | .stri2int => "STRI2INT"
  | .read => "READ"
  | .write => "WRITE"
  | .concat => "CONCAT"
  | .strlen => "STRLEN"
  | .getChar => "GETCHAR"
  | .setChar => "SETCHAR"
  | .type => "TYPE"
  | .label => "LABEL"
  | .jump => "JUMP"
  | .jumpIfEq => "JUMPIFEQ"
  | .jumpIfNeq => "JUMPIFNEQ"
  | .exit => "EXIT"
  | .dprint => "DPRINT"
  | .brk => "BREAK"

/-- the opcode with this mnemonic, in letters of either ASCII case -/
def Opcode.ofMnemonic? (s : List Char) : Option Opcode :=
  Opcode.all.find? fun op => op.mnemonic.toList == upper s

@[reducible] def Opcode.signature : Opcode → List Kind
  | .createFrame | .pushFrame | .popFrame | .ret | .brk => []
  | .defVar | .pops => [.var]
  | .call | .label | .jump => [.label]
  | .pushs | .write | .exit | .dprint => [.symbol]
  | .move | .not | .int2char | .strlen | .type => [.var, .symbol]
  | .read => [.var, .type]
  | .add | .sub | .mul | .idiv | .lt | .gt | .eq | .and | .or | .stri2int | .concat | .getChar
  | .setChar => [.var, .symbol, .symbol]
  | .jumpIfEq | .jumpIfNeq => [.label, .symbol, .symbol]

theorem Opcode.mem_all (op : Opcode) : op ∈ Opcode.all := by
  cases op <;> decide

theorem Opcode.ofMnemonic?_mnemonic (op : Opcode) :
    Opcode.ofMnemonic? op.mnemonic.toList = some op := by
  cases op <;> decide

end IPPcode24
