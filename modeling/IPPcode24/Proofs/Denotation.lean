import IPPcode24.Literal

/-!
# Literals by type

* `Ty.read? text t`      the value that a text denotes as a literal of a type
* `Ty.refusal text t`    what is wrong with it if there is none
* `Value.ofLiteral_name_eq_ok`   **a literal denotes what is read by its type**
-/

namespace IPPcode24

def Ty.read? (text : List Char) : Ty → Option Value
  | .int => (intLiteral? text).map .int
  | .bool => (boolLiteral? text).map .bool
  | .string => (Escape.decode? text).map fun s => .string (String.ofList s)
  | .nil => if text = Ty.nil.name.toList then some .nil else none
  | .type => none

def Ty.refusal (text : List Char) : Ty → Defect
  | .string => .invalidEscape (String.ofList text)
  | .type => .unknownLiteralType (String.ofList Ty.type.name.toList)
  | t => .invalidLiteral t (String.ofList text)

namespace Value

theorem ofLiteral_name (t : Ty) (text : List Char) :
    ofLiteral t.name.toList text = (t.read? text).elim (.error (t.refusal text)) .ok := by
  rw [ofLiteral, Ty.ofName?_name]
  cases t with
  | int => rw [Ty.read?]; cases intLiteral? text <;> rfl
  | bool => rw [Ty.read?]; cases boolLiteral? text <;> rfl
  | string => rw [Ty.read?]; cases Escape.decode? text <;> rfl
  | nil => dsimp only [Ty.read?]; split <;> rfl
  | type => rfl

theorem ofLiteral_name_eq_ok (t : Ty) (text : List Char) (x : Value) :
    ofLiteral t.name.toList text = .ok x ↔ t.read? text = some x := by
  rw [ofLiteral_name]
  cases t.read? text with
  | none => constructor <;> intro h <;> cases h
  | some y => constructor <;> intro h <;> cases h <;> rfl

theorem ofLiteral_name_of_none (t : Ty) (text : List Char) (h : t.read? text = none) :
    ofLiteral t.name.toList text = .error (t.refusal text) := by
  rw [ofLiteral_name, h]
  rfl

end Value
end IPPcode24
