import IPPcode24.Proofs.InputLines
import IPPcode24.Proofs.Steps

/-!
# What a run takes from its input

A READ that is executed takes one line, unless its type is nil or type.  Nothing else touches the
input, so a run depends on the lines it has taken and on no others.

* `Machine.takesLine m s`        the step from `s` takes a line
* `Machine.linesTaken m n s`     how many lines are taken in `n` steps
* `State.withInput s b`          the state with another input
* `Machine.input_after`          **the input is what is behind the lines taken**
* `Machine.step_withInput`       a step with another input, where the line that it takes is the same
* `Machine.after_withInput`      **steps with another input that begins with the same lines**

Main statement, `Machine.input_by_lines`.
-/

namespace IPPcode24

open Input

/-! ## instructions and the input -/

namespace Instr

def takesLine : Instr → Bool
  | .read _ t => t.takesLine
  | _ => false

/-- the input after an instruction that is executed -/
def inputAfter (b : Bytes) : Instr → Bytes
  | .read _ t => (Input.read t b).2
  | _ => b

theorem inputAfter_behind (i : Instr) (b : Bytes) (k : Nat) :
    i.inputAfter (behind b k) = behind b (k + if i.takesLine then 1 else 0) := by
  cases i with
  | read dst t =>
    rw [inputAfter, takesLine]
    cases ht : t.takesLine with
    | true => rw [read_behind t b k ht, if_pos rfl]
    | false => rw [read_of_not_takesLine t _ ht, if_neg Bool.false_ne_true, Nat.add_zero]
  | _ => rfl

theorem HasEffect.input (t : Labels) (s : State) (order : Nat) (i : Instr) (e : Effect)
    (h : i.HasEffect t s order e) : e.memory.input = i.inputAfter s.memory.input := by
  cases h <;> rfl

end Instr

/-! ## another input -/

def Memory.withInput (m : Memory) (b : Bytes) : Memory := { m with input := b }

def Effect.withInput (e : Effect) (b : Bytes) : Effect := { e with memory := e.memory.withInput b }

def State.withInput (s : State) (b : Bytes) : State := { s with memory := s.memory.withInput b }

theorem State.memory_withInput (s : State) (b : Bytes) :
    (s.withInput b).memory = s.memory.withInput b := rfl

namespace Memory

variable (m : Memory) (b : Bytes)

theorem setVar_withInput (dst : Var) (x : Value) :
    (m.withInput b).setVar dst x = (m.setVar dst x).map (·.withInput b) := by
  rw [setVar, setVar, withInput]
  cases m.frames.assign dst x <;> rfl

theorem popCall_withInput :
    (m.withInput b).popCall = m.popCall.map fun p => (p.1, p.2.withInput b) := by
  rw [popCall, popCall, withInput]
  cases m.calls <;> rfl

theorem popData_withInput :
    (m.withInput b).popData = m.popData.map fun p => (p.1, p.2.withInput b) := by
  rw [popData, popData, withInput]
  cases m.data <;> rfl

end Memory

/-- an instruction does the same with another input, if READ finds the same value there -/
theorem Instr.effect_withInput (t : Labels) (s : State) (order : Nat) (b : Bytes) (i : Instr)
    (h : ∀ dst ty, i = .read dst ty → s.memory.checkTarget dst = .ok () →
      (Input.read ty b).1 = (Input.read ty s.memory.input).1) :
    i.effect t (s.withInput b) order
      = (i.effect t s order).map (·.withInput (i.inputAfter b)) := by
  cases i with
  | read dst ty =>
    have htarget : (s.withInput b).memory.checkTarget dst = s.memory.checkTarget dst := rfl
    simp only [effect, map_of_bind, htarget]
    cases ht : s.memory.checkTarget dst with
    | error c => rfl
    | ok _ =>
      show (s.memory.withInput (Input.read ty b).2).setVar dst (Input.read ty b).1 >>= _
        = (s.memory.withInput (Input.read ty s.memory.input).2).setVar dst _ >>= _
      rw [Memory.setVar_withInput, Memory.setVar_withInput, h dst ty rfl ht, bind_of_map,
        bind_of_map]
      rfl
  | _ =>
    simp only [effect, State.memory_withInput, Memory.setVar_withInput, Memory.popCall_withInput,
      Memory.popData_withInput, map_of_bind, bind_of_map]
    rfl

namespace State

variable (s : State) (b : Bytes) (o : Option (Channel × String))

theorem hasRoom_withInput : (s.withInput b).hasRoom o = s.hasRoom o := by
  cases o <;> rfl

theorem emit_withInput : (s.withInput b).emit o = (s.emit o).withInput b := by
  rcases o with _ | ⟨c, text⟩
  · rfl
  · cases c <;> rfl

end State

namespace Machine

variable (m : Machine) (s : State)

/-! ## steps -/

/-- the step from `s` takes a line -/
def takesLine : Bool := m.executes s && (m.instr? s.pc).any Instr.takesLine

theorem takesLine_of_executes (r : Record) (hx : m.executes s = true)
    (hr : m.program.get? s.pc = some r) : m.takesLine s = r.instr.takesLine := by
  rw [takesLine, hx, m.instr?_of_get? s.pc r hr]
  rfl

theorem takesLine_of_not_executes (hx : m.executes s = false) : m.takesLine s = false := by
  rw [takesLine, hx, Bool.false_and]

/-- a READ is executed if its target is declared -/
theorem executes_read (r : Record) (dst : Var) (t : Ty) (hs : s.status = .running)
    (hr : m.program.get? s.pc = some r) (hi : r.instr = .read dst t)
    (ht : s.memory.checkTarget dst = .ok ()) : m.executes s = true := by
  obtain ⟨n, hn⟩ := Routine.setVar_of_checkTarget s.memory
    { s.memory with input := (Input.read t s.memory.input).2 } rfl dst
    (Input.read t s.memory.input).1 ht
  refine m.executes_of_effect s r (.ahead n) hs hr ?_ rfl
  rw [hi, Instr.effect]
  exact (bind_eq_ok _ _ _).mpr ⟨(), ht, (bind_eq_ok _ _ _).mpr ⟨n, hn, rfl⟩⟩

theorem input_step (b : Bytes) (k : Nat) (h : s.memory.input = behind b k) :
    (m.step s).state.memory.input = behind b (k + if m.takesLine s then 1 else 0) := by
  cases hx : m.executes s with
  | true =>
    obtain ⟨r, e, hr, he, hstep⟩ := m.step_of_executes s hx
    rw [hstep, m.takesLine_of_executes s r hx hr, State.perform_memory, he.input, h]
    exact r.instr.inputAfter_behind b k
  | false =>
    rw [(m.step_of_not_executes s hx).1, m.takesLine_of_not_executes s hx, h]
    rfl

section
variable (b : Bytes) (h : m.takesLine s = true → lineAt b 0 = lineAt s.memory.input 0)
include h

/-- the instruction of a step does the same, if the line that it takes is the same -/
theorem effect_of_lineAt (r : Record) (hs : s.status = .running)
    (hr : m.program.get? s.pc = some r) :
    r.instr.effect m.labels (s.withInput b) r.order
      = (r.instr.effect m.labels s r.order).map (·.withInput (r.instr.inputAfter b)) := by
  refine r.instr.effect_withInput m.labels s r.order b fun dst t hi ht => ?_
  cases hline : t.takesLine with
  | false => rw [read_of_not_takesLine t b hline, read_of_not_takesLine t _ hline]
  | true =>
    have htakes := m.takesLine_of_executes s r (m.executes_read s r dst t hs hr hi ht) hr
    rw [hi, Instr.takesLine, hline] at htakes
    have hread := read_behind t b 0 hline
    have hread' := read_behind t s.memory.input 0 hline
    rw [behind_zero] at hread hread'
    rw [hread, hread', h htakes]

/-- **A step with another input is the same step, if the line that it takes is the same.** -/
theorem step_withInput : m.step (s.withInput b) =
    ⟨(m.step s).state.withInput (behind b (if m.takesLine s then 1 else 0)), (m.step s).fault⟩ := by
  have hkept : ∀ u : State, m.executes s = false →
      u.withInput b = u.withInput (behind b (if m.takesLine s then 1 else 0)) := by
    intro u hx
    rw [m.takesLine_of_not_executes s hx, if_neg Bool.false_ne_true, behind_zero]
  have hstep := m.stepTo_step s
  generalize hu : m.step s = u at hstep ⊢
  cases hstep with
  | rest code hs =>
    have hx : m.executes s = false := by simp [executes, hs]
    rw [m.step_of_halted (s.withInput b) code hs, ← hkept s hx]
  | halt hs hr =>
    have hx : m.executes s = false := by simp [executes, hr]
    rw [m.step_of_end (s.withInput b) hs hr, ← hkept _ hx]
    rfl
  | fail r c hs hr he =>
    have hx : m.executes s = false := by simp [executes, hu]
    rw [m.step_of_get? (s.withInput b) r hs hr, m.effect_of_lineAt s b h r hs hr, he, ← hkept s hx]
    rfl
  | full r e hs hr he ho =>
    have hx : m.executes s = false := by simp [executes, hu]
    rw [m.step_of_get? (s.withInput b) r hs hr, m.effect_of_lineAt s b h r hs hr, he, ← hkept _ hx,
      ← s.emit_withInput]
    show Stepped.ofResult (if (s.withInput b).hasRoom e.output = true then _ else _) = _
    rw [s.hasRoom_withInput, ho, if_neg Bool.false_ne_true, Stepped.ofResult, State.emit_pc]
    rfl
  | done r e hs hr he ho =>
    have hx := m.executes_of_effect s r e hs hr he ho
    have hinput := r.instr.inputAfter_behind b 0
    rw [behind_zero, Nat.zero_add] at hinput
    rw [m.step_of_get? (s.withInput b) r hs hr, m.effect_of_lineAt s b h r hs hr, he,
      m.takesLine_of_executes s r hx hr, ← hinput]
    show Stepped.ofResult (if (s.withInput b).hasRoom e.output = true then _ else _) = _
    rw [s.hasRoom_withInput, ho, if_pos rfl, Stepped.ofResult, s.emit_withInput]
    rfl

theorem takesLine_withInput : m.takesLine (s.withInput b) = m.takesLine s := by
  rw [takesLine, takesLine, executes, executes, m.step_withInput s b h]
  rfl

end

/-! ## runs -/

def linesTaken (m : Machine) (n : Nat) (s : State) : Nat :=
  (List.range n).countP fun k => m.takesLine (m.after k s)

theorem linesTaken_succ (n : Nat) :
    m.linesTaken (n + 1) s = m.linesTaken n s + if m.takesLine (m.after n s) then 1 else 0 := by
  rw [linesTaken, linesTaken, List.range_succ, List.countP_append, List.countP_singleton]

/-- **The input is what is behind the lines taken.** -/
theorem input_after (n : Nat) :
    (m.after n s).memory.input = behind s.memory.input (m.linesTaken n s) := by
  induction n with
  | zero => exact (behind_zero _).symm
  | succ n ih => rw [after_succ, m.input_step _ _ _ ih, linesTaken_succ]

/-- a line that is taken is among the first -/
theorem line_of_linesTaken (b : Bytes) (n K : Nat)
    (hb : ∀ j < K, lineAt b j = lineAt s.memory.input j) (hn : m.linesTaken (n + 1) s ≤ K)
    (ht : m.takesLine (m.after n s) = true) :
    lineAt (behind b (m.linesTaken n s)) 0 = lineAt (m.after n s).memory.input 0 := by
  rw [linesTaken_succ, ht, if_pos rfl] at hn
  rw [m.input_after, lineAt_behind, lineAt_behind]
  exact hb _ hn

/-- **Steps with another input that begins with the same lines.** -/
theorem after_withInput (b : Bytes) (n K : Nat)
    (hb : ∀ j < K, lineAt b j = lineAt s.memory.input j) (hn : m.linesTaken n s ≤ K) :
    m.after n (s.withInput b) = (m.after n s).withInput (behind b (m.linesTaken n s)) ∧
      m.linesTaken n (s.withInput b) = m.linesTaken n s := by
  induction n with
  | zero =>
    show s.withInput b = s.withInput (behind b 0) ∧ _
    rw [behind_zero]
    exact ⟨rfl, rfl⟩
  | succ n ih =>
    have hle : m.linesTaken n s ≤ K := by
      rw [linesTaken_succ] at hn
      exact Nat.le_of_add_right_le hn
    obtain ⟨hafter, htaken⟩ := ih hle
    have hline := m.line_of_linesTaken s b n K hb hn
    rw [after_succ, linesTaken_succ, linesTaken_succ, hafter, htaken,
      m.step_withInput _ _ hline, m.takesLine_withInput _ _ hline, behind_behind]
    exact ⟨rfl, rfl⟩

/-- **Input by lines.**  After any number of steps the input is what is behind the lines taken: one
for each READ of type int, bool or string that was executed, and none for anything else, in
particular not for a READ that fails.  A READ stores what its type makes of the next line, whatever
became of those before.  With another input that has the same first `K` lines the states, and the
faults, are the same up to the input that is left, for as long as no more than these are taken. -/
theorem input_by_lines (input : Bytes) (stdout stderr : Option Nat) (n : Nat) :
    let start := State.start input (Sink.new stdout) (Sink.new stderr)
    let s := m.after n start
    let k := m.linesTaken n start
    s.memory.input = behind input k ∧
    (∀ dst t, m.instr? s.pc = some (.read dst t) → m.executes s = true →
      (m.step s).state.memory.frames.read dst = .ok (valueOf t (lineAt input k)) ∧
      s.memory.frames.assign dst (valueOf t (lineAt input k))
        = .ok (m.step s).state.memory.frames) ∧
    (m.takesLine s = false → (m.step s).state.memory.input = s.memory.input) ∧
    ∀ input' K, (∀ j < K, lineAt input' j = lineAt input j) → k ≤ K →
      m.after n (State.start input' (Sink.new stdout) (Sink.new stderr))
        = s.withInput (behind input' k) ∧
      m.linesTaken n (State.start input' (Sink.new stdout) (Sink.new stderr)) = k ∧
      (m.linesTaken (n + 1) start ≤ K →
        (m.step (m.after n (State.start input' (Sink.new stdout) (Sink.new stderr)))).fault
          = (m.step s).fault) := by
  intro start s k
  have hinput : s.memory.input = behind input k := m.input_after start n
  refine ⟨hinput, fun dst t hi hx => ?_, fun ht => ?_, fun input' K hlines hk => ?_⟩
  · obtain ⟨r, e, hr, he, hstep⟩ := m.step_of_executes s hx
    rw [m.instr?_of_get? s.pc r hr] at hi
    rw [Option.some.inj hi] at he
    rw [hstep]
    cases he with
    | read _ _ fs ht hf =>
      rw [hinput, value_behind] at hf
      exact ⟨s.memory.frames.read_of_assign fs dst _ hf, hf⟩
  · rw [m.input_step s input k hinput, ht, hinput]
    rfl
  · obtain ⟨hafter, htaken⟩ := m.after_withInput start input' n K hlines hk
    refine ⟨hafter, htaken, fun hnext => ?_⟩
    have hline := m.line_of_linesTaken start input' n K hlines hnext
    have hfault := congrArg Stepped.fault (m.step_withInput s _ hline)
    exact (congrArg (fun u => (m.step u).fault) hafter).trans hfault

/-- a READ of type nil between two others -/
def readMachine : Machine :=
  ⟨Program.ofInstrs [.defVar ⟨.gf, "a"⟩, .read ⟨.gf, "a"⟩ .string, .read ⟨.gf, "a"⟩ .nil,
    .read ⟨.gf, "a"⟩ .int], ⟨[]⟩, rfl⟩

/-- two inputs whose first line is not UTF-8, before a number in the second one is read -/
theorem input_by_lines_invalid :
    (readMachine.step (readMachine.after 3 (State.start [0xFF, 0x0A, 0x37, 0x0A] (Sink.new none)
      (Sink.new none)))).state.memory.frames.read ⟨.gf, "a"⟩ = .ok (.int 7) ∧
    readMachine.after 3 (State.start [0xC3, 0x0A, 0x37, 0x38] (Sink.new none) (Sink.new none))
      = (readMachine.after 3 (State.start [0xFF, 0x0A, 0x37, 0x0A] (Sink.new none)
        (Sink.new none))).withInput [0x37, 0x38] := by
  obtain ⟨_, hread, _, hsame⟩ := readMachine.input_by_lines [0xFF, 0x0A, 0x37, 0x0A] none none 3
  have hone : readMachine.linesTaken 3
      (State.start [0xFF, 0x0A, 0x37, 0x0A] (Sink.new none) (Sink.new none)) = 1 := by decide
  have hseven : valueOf .int (lineAt [0xFF, 0x0A, 0x37, 0x0A] 1) = .int 7 := by decide
  have hrest : behind [0xC3, 0x0A, 0x37, 0x38] 1 = [0x37, 0x38] := by decide
  rw [hone] at hread hsame
  have hvalue := (hread ⟨.gf, "a"⟩ .int (by decide) (by decide)).1
  have hstate := (hsame [0xC3, 0x0A, 0x37, 0x38] 1 (by decide) (Nat.le_refl 1)).1
  rw [hseven] at hvalue
  rw [hrest] at hstate
  exact ⟨hvalue, hstate⟩

end Machine
end IPPcode24
