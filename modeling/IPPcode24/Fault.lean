import IPPcode24.Frames
import IPPcode24.Operand

/-!
# Faults

* `Cause`   why an instruction cannot be executed, or a program not be loaded
* `Fault`   a cause at the index of an instruction

`Fault.message` is the text of a fault and `Fault.category` its category.
-/

namespace IPPcode24

inductive Cause where
  /-- an operand that stands for no value was to be resolved -/
  | malformed (d : Defect)
  | duplicateLabel (name : String)
  | undefinedLabel (name : String)
  | access (e : AccessError)
  /-- the opcode does not take operands of these types -/
  | operandTypes (op : Opcode) (found : List Ty)
  | divisionByZero
  /-- EXIT with an integer outside 0 to 9 -/
  | exitCode (n : Int64)
  /-- an integer that is no character's code -/
  | charCode (n : Int64)
  | index (i : Int64) (length : Nat)
  /-- SETCHAR with an empty string -/
  | emptyReplacement
  | emptyCallStack
  | emptyDataStack
  /-- the output channel has no room -/
  | channelFull
deriving DecidableEq, Repr

structure Fault where
  index : Nat
  cause : Cause
deriving DecidableEq, Repr

private def intText (n : Int64) : String := String.ofList (decimal n.toInt)

/-- the text of a cause at an index -/
def Cause.message (c : Cause) (index : Nat) : String :=
  let place := " at instruction " ++ countText index
  match c with
  | .malformed d => "malformed instruction at " ++ countText index ++ ": " ++ d.message
  | .duplicateLabel name => "label '" ++ name ++ "' redefined" ++ place
  | .undefinedLabel name => "undefined label '" ++ name ++ "'" ++ place
  | .access e => e.message ++ place
  | .operandTypes op found =>
    op.mnemonic ++ " cannot take " ++ ", ".intercalate (found.map Ty.name) ++ " operand(s)" ++ place
  | .divisionByZero => "division by zero" ++ place
  | .exitCode n => "exit code " ++ intText n ++ " out of range 0..=9" ++ place
  | .charCode n => intText n ++ " is not a valid character code" ++ place
  | .index i length =>
    "string index " ++ intText i ++ " out of range (length " ++ countText length ++ ")" ++ place
  | .emptyReplacement => "empty replacement string" ++ place
  | .emptyCallStack => "RETURN with empty call stack" ++ place
  | .emptyDataStack => "POPS with empty data stack" ++ place
  | .channelFull => "output error" ++ place ++ ": channel full"

def Cause.category : Cause → Category
  | .malformed d => d.category
  | .duplicateLabel _ => .semantic
  | .undefinedLabel _ => .semantic
  | .access e => e.category
  | .operandTypes _ _ => .wrongOperandType
  | .divisionByZero => .operandValue
  | .exitCode _ => .operandValue
  | .charCode _ => .stringOperation
  | .index _ _ => .stringOperation
  | .emptyReplacement => .stringOperation
  | .emptyCallStack => .value
  | .emptyDataStack => .value
  | .channelFull => .internal

def Fault.message (f : Fault) : String := f.cause.message f.index

def Fault.category (f : Fault) : Category := f.cause.category

end IPPcode24
