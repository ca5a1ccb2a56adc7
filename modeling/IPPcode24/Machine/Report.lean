import IPPcode24.Machine.State

/-!
# The report of BREAK

`State.report s order` describes the state before the instruction with that order number: position,
frames and stacks.  Variables are listed in the order of their names.
-/

namespace IPPcode24

/-- the value that a slot holds, as `type@text` -/
def Slot.text : Slot → String
  | .uninitialized => "<uninitialized>"
  | .holds v => v.written

def Frame.text (f : Frame) : String :=
  if f.isEmpty then "<empty>"
  else ", ".intercalate (f.slots.map fun e => e.1 ++ "=" ++ e.2.text)

namespace State

def localText (fs : Frames) : String :=
  match fs.frame? .lf with
  | some f => f.text ++ " (depth " ++ countText fs.depth ++ ")"
  | none => "<none>"

def temporaryText (fs : Frames) : String :=
  match fs.frame? .tf with
  | some f => f.text
  | none => "<none>"

def topText : List Value → String
  | [] => ""
  | v :: _ => " (top " ++ v.written ++ ")"

def report (s : State) (order : Nat) : String :=
  let m := s.memory
  "BREAK at instruction " ++ countText s.pc ++ " (order " ++ countText order ++ "), "
    ++ countText s.executed ++ " executed\n"
    ++ "GF: " ++ m.frames.global.text ++ "\n"
    ++ "LF: " ++ localText m.frames ++ "\n"
    ++ "TF: " ++ temporaryText m.frames ++ "\n"
    ++ "data stack: " ++ countText m.data.length ++ topText m.data
    ++ ", call stack: " ++ countText m.calls.length ++ "\n"

end State
end IPPcode24
