import IPPcode24.Proofs.Steps

/-!
# What a run writes

An instruction writes on one channel at most: WRITE the text of its operand on standard output,
DPRINT that of its own and BREAK the report on standard error.

* `Instr.textOn c s order i`   the text that an instruction has for a channel
* `Machine.textOn m c s`       the text that the step from `s` writes on a channel
* `State.mapSinks s f`         the state with other channels
* `State.emit_eq_mapSinks`     **what is written goes to one channel, and nothing to the other**
* `Machine.bytes_after`        **a channel without a limit holds the texts of all the steps, one
                               after the other**
-/

namespace IPPcode24

/-! ## texts -/

def Instr.textOn (c : Channel) (s : State) (order : Nat) : Instr → String
  | .print d a =>
    match s.memory.value a with
    | .ok x => if d = c then x.text else ""
    | .error _ => ""
  | .brk => if c = .stderr then s.report order else ""
  | _ => ""

/-- nothing is written where no instruction is executed -/
def Machine.textOn (m : Machine) (c : Channel) (s : State) : String :=
  if m.executes s then
    match m.program.get? s.pc with
    | some r => r.instr.textOn c s r.order
    | none => ""
  else ""

/-- the part of an output that is for a channel -/
def textFor (c : Channel) : Option (Channel × String) → String
  | some (d, text) => if d = c then text else ""
  | none => ""

theorem Instr.HasEffect.textOn (t : Labels) (s : State) (order : Nat) (i : Instr) (e : Effect)
    (h : i.HasEffect t s order e) (c : Channel) : i.textOn c s order = textFor c e.output := by
  cases h with
  | print d a x hx => rw [Instr.textOn, hx, textFor]
  | brk => cases c <;> rfl
  | _ => rfl

/-! ## channels -/

namespace State

def mapSinks (s : State) (f : Channel → Sink → Sink) : State :=
  { s with stdout := f .stdout s.stdout, stderr := f .stderr s.stderr }

section
variable (s : State) (f g : Channel → Sink → Sink) (o : Option (Channel × String))

theorem sink_mapSinks (c : Channel) : (s.mapSinks f).sink c = f c (s.sink c) := by
  cases c <;> rfl

theorem mapSinks_congr (h : ∀ c, f c (s.sink c) = g c (s.sink c)) :
    s.mapSinks f = s.mapSinks g := by
  have hout : f .stdout s.stdout = g .stdout s.stdout := h .stdout
  have herr : f .stderr s.stderr = g .stderr s.stderr := h .stderr
  rw [mapSinks, mapSinks, hout, herr]

theorem mapSinks_mapSinks :
    (s.mapSinks f).mapSinks g = s.mapSinks fun c k => g c (f c k) := rfl

/-- **What is written goes to one channel, and nothing to the other.** -/
theorem emit_eq_mapSinks :
    s.emit o = s.mapSinks fun c k => k.push (utf8 (textFor c o).toList) := by
  rcases o with _ | ⟨d, text⟩
  · simp [emit, mapSinks, textFor, utf8_nil, Sink.push_nil]
  · cases d <;> simp [emit, push, mapSinks, textFor, utf8_nil, Sink.push_nil]

theorem sink_emit (c : Channel) :
    (s.emit o).sink c = (s.sink c).push (utf8 (textFor c o).toList) := by
  rw [emit_eq_mapSinks, sink_mapSinks]

theorem hasRoom_iff :
    s.hasRoom o = true ↔ ∀ c, (s.sink c).fits (utf8 (textFor c o).toList) = true := by
  match o with
  | none => exact ⟨fun _ c => (s.sink c).fits_nil, fun _ => rfl⟩
  | some (d, text) =>
    constructor
    · intro h c
      rw [textFor]
      split
      · next hd => exact hd ▸ h
      · exact (s.sink c).fits_nil
    · intro h
      have hd := h d
      rwa [textFor, if_pos rfl] at hd

end
end State

namespace Machine

variable (m : Machine) (s : State) (c : Channel)

/-! ## steps -/

theorem textOn_of_not_executes (h : m.executes s = false) : m.textOn c s = "" := by
  rw [textOn, h, if_neg Bool.false_ne_true]

theorem textOn_of_executes (r : Record) (hx : m.executes s = true)
    (hr : m.program.get? s.pc = some r) : m.textOn c s = r.instr.textOn c s r.order := by
  rw [textOn, hx, if_pos rfl, hr]

/-- a step writes its text on a channel that has no limit, and nothing else -/
theorem sink_step (hc : (s.sink c).limit = none) :
    (m.step s).state.sink c = (s.sink c).push (utf8 (m.textOn c s).toList) := by
  cases hx : m.executes s with
  | true =>
    obtain ⟨r, e, hr, he, hstep⟩ := m.step_of_executes s hx
    have htext := m.textOn_of_executes s c r hx hr
    rw [he.textOn] at htext
    rw [hstep, htext, ← s.sink_emit]
    cases c <;> rfl
  | false =>
    rw [m.textOn_of_not_executes s c hx]
    refine Eq.trans ?_ (Sink.push_nil _).symm
    have hs := m.stepTo_step s
    unfold executes at hx
    generalize m.step s = u at hs hx ⊢
    cases hs with
    | done r e hs hr he ho => simp [hs, hr] at hx
    | full r e hs hr he ho =>
      -- the output that does not fit is for the other channel
      have hother : textFor c e.output = "" := by
        cases hw : e.output with
        | none => rfl
        | some p =>
          rw [textFor]
          refine if_neg fun hp => ?_
          rw [hw, State.hasRoom, hp, (s.sink c).fits_of_free _ hc] at ho
          cases ho
      rw [s.sink_emit, hother]
      exact Sink.push_nil _
    | _ => cases c <;> rfl

theorem limit_step : ((m.step s).state.sink c).limit = (s.sink c).limit := by
  have hemit : ∀ o, ((s.emit o).sink c).limit = (s.sink c).limit := by
    intro o
    rw [s.sink_emit]
    rfl
  have hs := m.stepTo_step s
  generalize m.step s = u at hs ⊢
  cases hs with
  | full r e hs hr he ho => exact hemit e.output
  | done r e hs hr he ho => rw [← hemit e.output]; cases c <;> rfl
  | _ => cases c <;> rfl

theorem limit_after (n : Nat) : ((m.after n s).sink c).limit = (s.sink c).limit :=
  m.after_invariant (fun t => (t.sink c).limit = (s.sink c).limit)
    (fun t ht => (m.limit_step t c).trans ht) n s rfl

/-- **A channel without a limit holds the texts of all the steps.** -/
theorem bytes_after (hc : (s.sink c).limit = none) (n : Nat) :
    ((m.after n s).sink c).bytes =
      (s.sink c).bytes ++
        (List.range n).flatMap fun k => utf8 (m.textOn c (m.after k s)).toList := by
  induction n with
  | zero => exact (List.append_nil _).symm
  | succ n ih =>
    have hn : ((m.after n s).sink c).limit = none := (m.limit_after s c n).trans hc
    rw [after_succ, m.sink_step _ c hn, Sink.bytes_push_of_free _ _ hn, ih, List.range_succ,
      List.flatMap_append, List.flatMap_singleton, List.append_assoc]

end Machine
end IPPcode24
