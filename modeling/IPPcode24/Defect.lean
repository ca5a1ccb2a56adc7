import IPPcode24.Category
import IPPcode24.Opcode
import IPPcode24.Value

/-!
# Defects of texts and records

What can be wrong with the text of an operand, with an instruction, or with the numbering of a
program.  All of it is structural.
-/

namespace IPPcode24

inductive Defect where
  | unknownOpcode (text : String)
  | operandCount (op : Opcode) (found : Nat)
  /-- the operand at a position, counted from one, is not of the kind that is expected there; the
  opcode is unknown where no instruction is being executed -/
  | operandKind (op : Option Opcode) (position : Nat) (expected : Kind)
  | invalidFrame (text : String)
  | invalidIdentifier (text : String)
  | unknownLiteralType (text : String)
  | invalidTypeName (text : String)
  | invalidLiteral (ty : Ty) (text : String)
  | invalidEscape (text : String)
  | duplicateOrder (order : Nat)
deriving DecidableEq, Repr

/-- the decimal text of a count or an index -/
def countText (n : Nat) : String := String.ofList (decimal n)

private def mnemonicText : Option Opcode → String
  | some op => op.mnemonic
  | none => "?"

def Defect.message : Defect → String
  | .unknownOpcode t => "unknown opcode '" ++ t ++ "'"
  | .operandCount op found =>
    op.mnemonic ++ " expects " ++ countText op.signature.length ++ " operand(s), found "
      ++ countText found
  | .operandKind op position expected =>
    mnemonicText op ++ " operand " ++ countText position ++ " must be a " ++ expected.name
  | .invalidFrame t => "invalid frame '" ++ t ++ "'"
  | .invalidIdentifier t => "invalid identifier '" ++ t ++ "'"
  | .unknownLiteralType t => "unknown literal type '" ++ t ++ "'"
  | .invalidTypeName t => "invalid type name '" ++ t ++ "'"
  | .invalidLiteral ty t => "invalid " ++ ty.name ++ " literal '" ++ t ++ "'"
  | .invalidEscape t => "invalid escape sequence in '" ++ t ++ "'"
  | .duplicateOrder n => "duplicate instruction order " ++ countText n

def Defect.category (_ : Defect) : Category := .structural

/-- the opcode with a mnemonic -/
def Opcode.parse (s : List Char) : Except Defect Opcode :=
  match Opcode.ofMnemonic? s with
  | some op => .ok op
  | none => .error (.unknownOpcode (String.ofList s))

end IPPcode24
