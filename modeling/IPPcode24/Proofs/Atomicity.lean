import IPPcode24.Proofs.Steps

/-!
# Failed instructions are atomic

Main statement, `Machine.step_fault`: a step that fails leaves the state as it was, and goes on
failing.  Only an output that does not fit leaves a trace, a part of it on the channel it was for.

* `Instr.Writes s order i c t`    the instruction writes the text `t` to the channel `c`
* `State.CutShort s s' c t`       of the text only a part has got from `s` to `s'`
* `Machine.step_of_fault`         the two ways in which a step can fail
-/

namespace IPPcode24

/-! ## what instructions write -/

inductive Instr.Writes (s : State) (order : Nat) : Instr → Channel → String → Prop where
  | print (channel : Channel) (a : Symbol) (x : Value) (hx : s.memory.value a = .ok x) :
    Writes s order (.print channel a) channel x.text
  | brk : Writes s order .brk .stderr (s.report order)

theorem Instr.HasEffect.writes (t : Labels) (s : State) (order : Nat) (i : Instr) (e : Effect)
    (h : i.HasEffect t s order e) (channel : Channel) (text : String)
    (ho : e.output = some (channel, text)) : i.Writes s order channel text := by
  cases h with
  | print c a x hx => cases ho; exact .print channel a x hx
  | brk => cases ho; exact .brk
  | _ => cases ho

theorem Instr.Writes.opcode (s : State) (order : Nat) (i : Instr) (channel : Channel)
    (text : String) (h : i.Writes s order channel text) :
    channel = .stdout ∧ i.opcode = .write ∨
      channel = .stderr ∧ (i.opcode = .dprint ∨ i.opcode = .brk) := by
  cases h with
  | print c a x hx =>
    cases channel with
    | stdout => exact .inl ⟨rfl, rfl⟩
    | stderr => exact .inr ⟨rfl, .inl rfl⟩
  | brk => exact .inr ⟨rfl, .inr rfl⟩

/-! ## output that is cut short -/

structure State.CutShort (s s' : State) (channel : Channel) (text : String) : Prop where
  other : ∀ c, c ≠ channel → s'.sink c = s.sink c
  limit : (s'.sink channel).limit = (s.sink channel).limit
  grown : ∃ kept, kept <+: utf8 text.toList ∧ kept ≠ utf8 text.toList ∧
    (s'.sink channel).bytes = (s.sink channel).bytes ++ kept

theorem State.sink_push_self (s : State) (c : Channel) (b : Bytes) :
    (s.push c b).sink c = (s.sink c).push b := by
  cases c <;> rfl

theorem State.sink_push_of_ne (s : State) (c d : Channel) (b : Bytes) (h : d ≠ c) :
    (s.push c b).sink d = s.sink d := by
  cases c <;> cases d <;> first | rfl | exact absurd rfl h

theorem State.cutShort_push (s : State) (channel : Channel) (text : String)
    (h : (s.sink channel).fits (utf8 text.toList) = false) :
    s.CutShort (s.push channel (utf8 text.toList)) channel text where
  other c hc := s.sink_push_of_ne channel c _ hc
  limit := by
    rw [s.sink_push_self]
    rfl
  grown := by
    refine ⟨(s.sink channel).kept (utf8 text.toList), Sink.kept_isPrefix _ _,
      Sink.kept_ne_of_not_fits _ _ h, ?_⟩
    rw [s.sink_push_self, Sink.bytes_push]

/-! ## steps that fail -/

namespace Machine

/-- a step fails because its instruction has no effect, or because its output does not fit -/
theorem step_of_fault (m : Machine) (s : State) (f : Fault) (h : (m.step s).fault = some f) :
    s.status = .running ∧ f.index = s.pc ∧
      (f.cause ≠ .channelFull ∧ m.step s = ⟨s, some f⟩ ∨
        f.cause = .channelFull ∧ ∃ r channel text, m.program.get? s.pc = some r ∧
          r.instr.Writes s r.order channel text ∧
          (s.sink channel).fits (utf8 text.toList) = false ∧
          m.step s = ⟨s.push channel (utf8 text.toList), some f⟩) := by
  have hs := m.stepTo_step s
  generalize m.step s = u at hs h ⊢
  cases hs with
  | rest code hs => cases h
  | halt hs hr => cases h
  | done r e hs hr he ho => cases h
  | fail r c hs hr hc =>
    cases h
    refine ⟨hs, rfl, .inl ⟨?_, rfl⟩⟩
    rintro rfl
    exact r.instr.effect_fails m.labels s r.order _ hc
  | full r e hs hr he ho =>
    cases h
    refine ⟨hs, rfl, .inr ⟨rfl, ?_⟩⟩
    cases hw : e.output with
    | none => rw [hw] at ho; cases ho
    | some p =>
      rw [hw] at ho
      have hi := r.instr.effect_eq_ok m.labels s r.order e he
      exact ⟨r, p.1, p.2, hr, hi.writes _ _ _ _ _ _ _ hw, ho, rfl⟩

/-- **Failed instructions are atomic.**  A step that fails reports the instruction it stands at and
leaves memory, position and count as they were, whatever its routine had done before.  Unless the
output did not fit, the channels are as they were too, and all further steps fail in the same way.
Where it did not fit, the instruction is one that writes, and a part of its text has been written. -/
theorem step_fault (m : Machine) (s : State) (f : Fault) (h : (m.step s).fault = some f) :
    f.index = s.pc ∧ s.status = .running ∧ (m.step s).state.status = .running ∧
    (m.step s).state.memory = s.memory ∧ (m.step s).state.pc = s.pc ∧
    (m.step s).state.executed = s.executed ∧
    (f.cause ≠ .channelFull →
      (m.step s).state = s ∧ ∀ n, m.after n s = s ∧ m.step (m.after n s) = ⟨s, some f⟩) ∧
    (f.cause = .channelFull → ∃ r channel text, m.program.get? s.pc = some r ∧
      r.instr.Writes s r.order channel text ∧
      (channel = .stdout ∧ r.instr.opcode = .write ∨
        channel = .stderr ∧ (r.instr.opcode = .dprint ∨ r.instr.opcode = .brk)) ∧
      s.CutShort (m.step s).state channel text) := by
  obtain ⟨hs, hf, ⟨hc, hu⟩ | ⟨hc, r, channel, text, hr, hw, hfit, hu⟩⟩ := m.step_of_fault s f h
  · have hfix : (m.step s).state = s := by rw [hu]
    rw [hfix]
    refine ⟨hf, hs, hs, rfl, rfl, rfl, fun _ => ⟨rfl, fun n => ?_⟩, fun hfull => absurd hfull hc⟩
    have hn := m.after_of_fixed n s hfix
    exact ⟨hn, by rw [hn, hu]⟩
  · have hp : (m.step s).state = s.push channel (utf8 text.toList) := by rw [hu]
    have hcut := s.cutShort_push channel text hfit
    have hop := hw.opcode
    rw [hp]
    refine ⟨hf, hs, ?_, ?_, ?_, ?_, fun hne => absurd hc hne,
      fun _ => ⟨r, channel, text, hr, hw, hop, hcut⟩⟩
    all_goals
      cases channel
      all_goals first | rfl | exact hs

/-- a letter of two bytes of which only one fits -/
def cutMachine : Machine :=
  ⟨Program.ofInstrs [.defVar ⟨.gf, "x"⟩, .print .stdout (.literal (.string "hé"))], ⟨[]⟩, rfl⟩

theorem step_fault_cut :
    let s := cutMachine.after 1 (State.start [] (Sink.new (some 2)) (Sink.new none))
    (cutMachine.step s).fault = some ⟨1, .channelFull⟩ ∧
      (cutMachine.step s).state.memory = s.memory ∧
      ∃ r channel text, cutMachine.program.get? s.pc = some r ∧
        r.instr.Writes s r.order channel text ∧
        s.CutShort (cutMachine.step s).state channel text := by
  intro s
  have h : (cutMachine.step s).fault = some ⟨1, .channelFull⟩ := by decide
  obtain ⟨_, _, _, hm, _, _, _, hfull⟩ := cutMachine.step_fault s _ h
  obtain ⟨r, channel, text, hr, hw, _, hc⟩ := hfull rfl
  exact ⟨h, hm, r, channel, text, hr, hw, hc⟩

end Machine
end IPPcode24
