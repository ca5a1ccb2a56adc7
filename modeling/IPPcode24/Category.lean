/-!
# Categories of failure

Every failure of a load or a run has a category, and the category alone decides the exit code.
-/

namespace IPPcode24

inductive Category where
  /-- the source or the input file cannot be read -/
  | inputFile
  /-- malformed source text, instruction or operand -/
  | structural
  /-- redeclared variable, undefined or duplicate label -/
  | semantic
  /-- operand of a type that the opcode does not take -/
  | wrongOperandType
  /-- undeclared or uninitialised variable -/
  | undefinedVariable
  /-- no local or no temporary frame -/
  | frameAccess
  /-- empty call stack or data stack -/
  | value
  /-- operand of the right type with a value out of range -/
  | operandValue
  /-- string index or character code out of range -/
  | stringOperation
  /-- output that could not be written -/
  | internal
deriving DecidableEq, Repr

def Category.exitCode : Category → Nat
  | .inputFile => 11
  | .structural => 32
  | .semantic => 52
  | .wrongOperandType => 53
  | .undefinedVariable => 54
  | .frameAccess => 55
  | .value => 56
  | .operandValue => 57
  | .stringOperation => 58
  | .internal => 99

end IPPcode24
