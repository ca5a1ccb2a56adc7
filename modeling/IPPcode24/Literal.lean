import IPPcode24.Defect
import IPPcode24.Text.Escape

/-!
# Literals

* `radix s`           the base that `0x`, `0X`, `0o` or `0O` announces, ten without one, and the digits
* `intLiteral? s`     an optional sign and digits in one of the three bases, in the range of 64 bits;
                      the digits are read first, as a number of 127 bits
* `Value.ofLiteral`   the value that `type@text` denotes; no literal denotes the name of a type
-/

namespace IPPcode24

def radix : List Char → Nat × List Char
  | '0' :: 'x' :: s => (16, s)
  | '0' :: 'X' :: s => (16, s)
  | '0' :: 'o' :: s => (8, s)
  | '0' :: 'O' :: s => (8, s)
  | s => (10, s)

/-- what the digits of an integer come to at most; only then the sign and the range count -/
def maxMagnitude : Nat := 0x7fffffffffffffffffffffffffffffff

def intLiteral? (s : List Char) : Option Int64 :=
  let body := signed s
  let digits := radix body.2
  (natWithin? maxMagnitude digits.1 digits.2).bind fun n => int64? (withSign body.1 n)

def boolLiteral? (s : List Char) : Option Bool :=
  if s = "true".toList then some true
  else if s = "false".toList then some false
  else none

def Value.ofLiteral (ty text : List Char) : Except Defect Value :=
  match Ty.ofName? ty with
  | some .int =>
    match intLiteral? text with
    | some n => .ok (.int n)
    | none => .error (.invalidLiteral .int (String.ofList text))
  | some .bool =>
    match boolLiteral? text with
    | some b => .ok (.bool b)
    | none => .error (.invalidLiteral .bool (String.ofList text))
  | some .nil =>
    if text = Ty.nil.name.toList then .ok .nil
    else .error (.invalidLiteral .nil (String.ofList text))
  | some .string =>
    match Escape.decode? text with
    | some s => .ok (.string (String.ofList s))
    | none => .error (.invalidEscape (String.ofList text))
  | some .type | none => .error (.unknownLiteralType (String.ofList ty))

end IPPcode24
