import IPPcode24.Text.Blank
import IPPcode24.Text.Case
import IPPcode24.Text.Utf8
import IPPcode24.Value

/-!
# Input, one line at a time

The input is the bytes that are still to be read.  A read takes the bytes up to and with the first
line feed, or all of them, whatever comes of it.

* `Input.line b`         the first line, if there is one and it is UTF-8, and the bytes after it
* `Input.decimal? s`     an optional sign and decimal digits, in the range of 64 bits
* `Input.interpret t s`  a line as a value of type `t`
* `Input.read t b`       READ: nil where there is no line or no value, and for the types nil and
                         type, which take no line
-/

namespace IPPcode24.Input

/-- a line without the carriage return at its end -/
def dropReturn (s : List Char) : List Char :=
  if s.getLast? = some '\r' then s.dropLast else s

def line (b : Bytes) : Option (List Char) × Bytes :=
  let first := b.takeWhile fun x => x != 0x0A
  match b.dropWhile fun x => x != 0x0A with
  | [] => (if first.isEmpty then none else utf8? first, [])
  | _ :: rest => ((utf8? first).map dropReturn, rest)

def decimal? (s : List Char) : Option Int64 :=
  let body := signed s
  if body.2.isEmpty || !body.2.all Char.isDigit then none
  else int64? (withSign body.1 (Nat.ofDigitChars 10 body.2 0))

def interpret (t : Ty) (s : List Char) : Value :=
  match t with
  | .int =>
    match decimal? (trim s) with
    | some n => .int n
    | none => .nil
  | .bool => .bool (sameText (trim s) "true".toList)
  | .string => .string (String.ofList s)
  | .nil | .type => .nil

def read (t : Ty) (b : Bytes) : Value × Bytes :=
  match t with
  | .nil | .type => (.nil, b)
  | .int | .bool | .string =>
    match line b with
    | (some s, rest) => (interpret t s, rest)
    | (none, rest) => (.nil, rest)

end IPPcode24.Input
