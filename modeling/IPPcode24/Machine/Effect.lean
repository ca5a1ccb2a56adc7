import IPPcode24.Machine.Compute
import IPPcode24.Machine.Memory
import IPPcode24.Machine.Report

/-!
# What an instruction does

* `Effect`         the memory after an instruction, the course, and the text it writes
* `Instr.effect`   the effect in a state, or the cause for which there is none
* `State.finish`   the state in which an instruction with this effect ends

An effect is computed from the state before and changes nothing by itself: it is what the routines
of the machine, which work in place, come to.  The checks come in one order: the target is declared,
the operands have values from the left, their types are taken, their values are in range.
-/

namespace IPPcode24

structure Effect where
  memory : Memory
  course : Course
  output : Option (Channel × String)
deriving DecidableEq

/-- a memory, and on to the next instruction -/
def Effect.ahead (m : Memory) : Effect := ⟨m, .ahead, none⟩

/-- `order` is the order number of the instruction -/
def Instr.effect (t : Labels) (s : State) (order : Nat) (instr : Instr) : Except Cause Effect :=
  let m := s.memory
  match instr with
  | .createFrame => .ok (.ahead { m with frames := m.frames.create })
  | .pushFrame => do
    let fs ← ofAccess m.frames.push
    .ok (.ahead { m with frames := fs })
  | .popFrame => do
    let fs ← ofAccess m.frames.pop
    .ok (.ahead { m with frames := fs })
  | .defVar v => do
    let fs ← ofAccess (m.frames.declare v)
    .ok (.ahead { m with frames := fs })
  | .call name => do
    let i ← t.target name
    .ok ⟨m.pushCall (s.pc + 1), .goto i, none⟩
  | .ret => do
    let (i, m) ← m.popCall
    .ok ⟨m, .goto i, none⟩
  | .pushs a => do
    let x ← m.value a
    .ok (.ahead (m.pushData x))
  | .pops dst => do
    m.checkTarget dst
    let (x, m) ← m.popData
    .ok (.ahead (← m.setVar dst x))
  | .unary f dst a => do
    m.checkTarget dst
    let x ← m.value a
    let y ← f.apply x
    .ok (.ahead (← m.setVar dst y))
  | .binary f dst a b => do
    m.checkTarget dst
    let x ← m.value a
    let y ← m.value b
    let z ← f.apply x y
    .ok (.ahead (← m.setVar dst z))
  | .setChar dst a b => do
    m.checkTarget dst
    let x ← ofAccess (m.frames.read dst)
    let y ← m.value a
    let z ← m.value b
    let w ← IPPcode24.setChar x y z
    .ok (.ahead (← m.setVar dst w))
  | .type dst a => do
    m.checkTarget dst
    let name ← m.typeName a
    .ok (.ahead (← m.setVar dst (.string name)))
  | .read dst ty => do
    m.checkTarget dst
    let (x, rest) := Input.read ty m.input
    .ok (.ahead (← { m with input := rest }.setVar dst x))
  | .print channel a => do
    let x ← m.value a
    .ok ⟨m, .ahead, some (channel, x.text)⟩
  | .label _ => .ok (.ahead m)
  | .jump name => do
    let i ← t.target name
    .ok ⟨m, .goto i, none⟩
  | .jumpIf verdict name a b => do
    let i ← t.target name
    let x ← m.value a
    let y ← m.value b
    let e ← equal instr.opcode x y
    .ok ⟨m, if e = verdict then .goto i else .ahead, none⟩
  | .exit a => do
    let x ← m.value a
    let code ← exitCode x
    .ok ⟨m, .stop code, none⟩
  | .brk => .ok ⟨m, .ahead, some (.stderr, s.report order)⟩

/-! ## the state after an effect -/

namespace State

/-- a text may be written, if there is one -/
def hasRoom (s : State) : Option (Channel × String) → Bool
  | none => true
  | some (channel, text) => (s.sink channel).fits (utf8 text.toList)

/-- the state after a text is written, if there is one -/
def emit (s : State) : Option (Channel × String) → State
  | none => s
  | some (channel, text) => s.push channel (utf8 text.toList)

/-- what is written changes the channels only -/
theorem emit_eq (s : State) (o : Option (Channel × String)) :
    s.emit o = { s with stdout := (s.emit o).stdout, stderr := (s.emit o).stderr } := by
  rcases o with _ | ⟨channel, text⟩
  · rfl
  · cases channel <;> rfl

/-- without an effect the state stays as it is, and without room all but the output does -/
def finish (s : State) : Except Cause Effect → EStateM.Result Cause State Course
  | .error c => .error c s
  | .ok e =>
    if s.hasRoom e.output then .ok e.course { s.emit e.output with memory := e.memory }
    else .error .channelFull (s.emit e.output)

end State
end IPPcode24
