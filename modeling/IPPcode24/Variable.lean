import IPPcode24.Defect
import IPPcode24.Text.Alphabetic
import IPPcode24.Text.Numeric
import IPPcode24.Text.Cut

/-!
# Names and variables

* `isName s`     a letter or one of `_-$&%*!?`, then letters, numbers and those marks
* `FrameName`    `GF`, `LF` and `TF`
* `Var`          a frame and a name in it; the name of a value of this type may be any text
* `Var.parse`    `GF@name` with a name that `isName`
* `Var.text`     the variable as `GF@name`
-/

namespace IPPcode24

/-! ## names -/

/-- a mark that a name may hold beside letters and numbers -/
def isMark (c : Char) : Bool := "_-$&%*!?".toList.contains c

def isNameStart (c : Char) : Bool := isAlphabetic c || isMark c
def isNameChar (c : Char) : Bool := isAlphabetic c || isNumeric c || isMark c

def isName : List Char → Bool
  | [] => false
  | c :: s => isNameStart c && s.all isNameChar

def checkName (s : List Char) : Except Defect String :=
  if isName s then .ok (String.ofList s) else .error (.invalidIdentifier (String.ofList s))

/-! ## frames by name -/

inductive FrameName where
  /-- the global frame -/
  | gf
  /-- the innermost local frame -/
  | lf
  /-- the temporary frame -/
  | tf
deriving DecidableEq, Repr

def FrameName.all : List FrameName := [.gf, .lf, .tf]

def FrameName.text : FrameName → String
  | .gf => "GF"
  | .lf => "LF"
  | .tf => "TF"

def FrameName.ofText? (s : List Char) : Option FrameName :=
  FrameName.all.find? fun f => f.text.toList == s

def FrameName.parse (s : List Char) : Except Defect FrameName :=
  match FrameName.ofText? s with
  | some f => .ok f
  | none => .error (.invalidFrame (String.ofList s))

theorem FrameName.ofText?_text (f : FrameName) : FrameName.ofText? f.text.toList = some f := by
  cases f <;> rfl

/-! ## variables -/

structure Var where
  frame : FrameName
  name : String
deriving DecidableEq, Repr

def Var.text (v : Var) : String := v.frame.text ++ "@" ++ v.name

/-- the variable of a frame with a name that is checked -/
def Var.named (f : FrameName) (s : List Char) : Except Defect Var :=
  (checkName s).map fun name => ⟨f, name⟩

def Var.parse (s : List Char) : Except Defect Var :=
  match cutAt '@' s with
  | none => .error (.invalidFrame (String.ofList s))
  | some (frame, name) => (FrameName.parse frame).bind fun f => Var.named f name

end IPPcode24
