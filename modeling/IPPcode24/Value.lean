import IPPcode24.Text.Number

/-!
# Values and their types

* `Ty`, `Ty.name`, `Ty.ofName?`   the five types and their names
* `Value`          a 64-bit integer, a Boolean, a string, nil, or the name of a type
* `Value.ty`       the type of a value
* `Value.text`     the text of a value
* `Value.written`  the value as `type@text`
-/

namespace IPPcode24

/-! ## types -/

inductive Ty where
  | int
  | bool
  | string
  | nil
  | type
deriving DecidableEq, Repr

def Ty.all : List Ty := [.int, .bool, .string, .nil, .type]

def Ty.name : Ty → String
  | .int => "int"
  | .bool => "bool"
  | .string => "string"
  | .nil => "nil"
  | .type => "type"

/-- the type with this name -/
def Ty.ofName? (s : List Char) : Option Ty := Ty.all.find? fun t => t.name.toList == s

theorem Ty.ofName?_name (t : Ty) : Ty.ofName? t.name.toList = some t := by
  cases t <;> rfl

/-! ## values -/

inductive Value where
  | int (n : Int64)
  | bool (b : Bool)
  | string (s : String)
  | nil
  | type (t : Ty)
deriving DecidableEq, Repr

def Value.ty : Value → Ty
  | .int _ => .int
  | .bool _ => .bool
  | .string _ => .string
  | .nil => .nil
  | .type _ => .type

/-- the text of a value; that of nil is empty -/
def Value.text : Value → String
  | .int n => String.ofList (decimal n.toInt)
  | .bool true => "true"
  | .bool false => "false"
  | .string s => s
  | .nil => ""
  | .type t => t.name

/-- the value as `type@text`; nil is `nil@nil`, and the text of a string is not escaped -/
def Value.written : Value → String
  | .nil => "nil@nil"
  | v => v.ty.name ++ "@" ++ v.text

end IPPcode24
