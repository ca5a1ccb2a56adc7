import IPPcode24.Command
import IPPcode24.Proofs.Labels
import IPPcode24.Proofs.Limits
import IPPcode24.Proofs.Runs

/-!
# The verdict of `check`

`check` loads a program as `run` does, and does not run it.  What it refuses `run` refuses as well,
and what it accepts `run` cannot refuse later: no instruction of a loaded program is malformed.

* `Category.exitCode_of_not_mem`   the exit codes of instructions that fail
* `Machine.possible_of_run`        a run with free channels fails with what an instruction can have
* `failure_of_loadSource`, `assembled_of_loadSource`   what comes of a source

Main statement, `Command.check_agrees`.
-/

namespace IPPcode24

/-! ## exit codes -/

theorem Category.exitCode_ne_zero (c : Category) : c.exitCode ≠ 0 := by
  cases c <;> decide

/-- an instruction fails with a category of its own -/
theorem Cause.Possible.category (t : Labels) (c : Cause) (h : c.Possible t) :
    c.category ∉ [.inputFile, .structural, .internal] := by
  cases c with
  | malformed d => cases h
  | duplicateLabel name => cases h
  | channelFull => cases h
  | access e => cases e <;> simp [Cause.category, AccessError.category]
  | _ => simp [Cause.category]

theorem Category.exitCode_of_not_mem (c : Category)
    (h : c ∉ [.inputFile, .structural, .internal]) : 52 ≤ c.exitCode ∧ c.exitCode ≤ 58 := by
  revert h
  cases c <;> decide

namespace Machine

variable (m : Machine) (s : State)

/-- without limits there is always room -/
theorem possible_of_fault (hs : s.IsFree) (f : Fault) (h : (m.step s).fault = some f) :
    f.cause.Possible m.labels := by
  have hstep := m.stepTo_step s
  generalize m.step s = u at hstep h
  cases hstep with
  | fail r c hc hr he =>
    cases h
    exact (r.instr.effect_explained m.labels s r.order c he).possible
  | full r e hc hr he ho =>
    rw [hs.hasRoom] at ho
    cases ho
  | _ => cases h

theorem possible_of_run (hs : s.IsFree) (n : Nat) (f : Fault) (t : State)
    (h : m.run n s = (some (.fault f), t)) : f.cause.Possible m.labels := by
  obtain ⟨k, u, _, hk, hlast⟩ := m.exists_last_step n s t _ h
  refine m.possible_of_fault u ?_ f (m.fault_of_last_step u t f hlast)
  rw [← m.after_of_unfinished k s u hk]
  exact m.isFree_after s hs k

end Machine

/-! ## loading -/

section
variable (files : String → File) (path : String)

/-- a response instead of a program: the source cannot be read or not be assembled -/
theorem failure_of_loadSource (r : Response) (h : loadSource files path = .error r) :
    r.exit ≠ 0 ∧ r.stdout = [] := by
  rw [loadSource] at h
  split at h
  · cases h
    exact ⟨Category.inputFile.exitCode_ne_zero, rfl⟩
  · split at h
    · next e he =>
      cases h
      exact ⟨e.category.exitCode_ne_zero, rfl⟩
    · cases h

theorem assembled_of_loadSource (p : Program) (h : loadSource files path = .ok p) :
    ∃ s, (files path).text = .ok s ∧ assemble s = .ok p := by
  rw [loadSource] at h
  split at h
  · cases h
  · next s hs =>
    split at h
    · cases h
    · next q hq =>
      cases h
      exact ⟨s, hs, hq⟩

end

theorem exists_openInput (files : String → File) (stdin : Bytes) (input : Option String)
    (h : ∀ path, input = some path → ∀ e, files path ≠ .unopenable e) :
    ∃ b, openInput files stdin input = .ok b := by
  cases input with
  | none => exact ⟨stdin, rfl⟩
  | some path =>
    rw [openInput]
    cases hf : files path with
    | unopenable e => exact absurd hf (h path rfl e)
    | directory => exact ⟨[], rfl⟩
    | content b => exact ⟨b, rfl⟩

section
variable (files : String → File) (stdin : Bytes) (source : String) (p : Program)
  (hload : loadSource files source = .ok p)
include hload

theorem checkSource_of_labels (t : Labels) (ht : p.labels = .ok t) :
    checkSource files source = .output (checkText source p t) := by
  rw [checkSource, hload]
  dsimp only
  rw [ht]

theorem checkSource_of_fault (f : Fault) (hf : p.labels = .error f) :
    checkSource files source = .failure f.category.exitCode ("error: " ++ f.message) := by
  rw [checkSource, hload]
  dsimp only
  rw [hf]

section
variable (input : Option String) (b : Bytes) (hb : openInput files stdin input = .ok b)
include hb

theorem prepareRun_of_load (m : Machine) (hm : Machine.load p = .ok m) :
    prepareRun files stdin source input
      = .ok (m, .start b (Sink.new none) (Sink.new none)) := by
  simp only [prepareRun, hload, hb, bind, Except.bind, hm]

theorem prepareRun_of_fault (f : Fault) (hf : Machine.load p = .error f) :
    prepareRun files stdin source input
      = .error (Response.ofOutcome (.start b (Sink.new none) (Sink.new none)) (.fault f)) := by
  simp only [prepareRun, hload, hb, bind, Except.bind, hf]

end
end

namespace Command

/-- a run that comes to an end exits as programs and their instructions do -/
theorem exit_of_answer (n : Nat) (files : String → File) (stdin : Bytes) (c : Command)
    (m : Machine) (start : State) (hc : c.prepare files stdin = .ok (m, start))
    (hs : start.IsFree) (r : Response) (h : c.answer n files stdin = some r) :
    r.exit ≤ 9 ∨ 52 ≤ r.exit ∧ r.exit ≤ 58 := by
  rw [answer, hc] at h
  dsimp only at h
  cases hrun : m.run n start with
  | mk o t =>
    rw [hrun] at h
    cases o with
    | none => cases h
    | some o =>
      cases h
      cases o with
      | exit code => exact .inl (Nat.le_of_lt_succ code.isLt)
      | fault f =>
        have hf := m.possible_of_run start hs n f t hrun
        exact .inr (f.category.exitCode_of_not_mem hf.category)

/-! ## the main statement -/

/-- **The verdict of `check`.**  Whatever is found under the path of the source, `check` answers at
once.  If it fails, `run` does so at once, with the same exit code and nothing on standard output.
If it does not fail, the source is that of a program, and the counts are those of its instructions
and of its LABEL instructions.  Then `run` starts a machine that never reports a label that is
defined twice, and if it comes to an end exits with 0 to 9 or with 52 to 58: never with 11 or 32. -/
theorem check_agrees (files : String → File) (stdin : Bytes) (source : String)
    (input : Option String)
    (hinput : ∀ path, input = some path → ∀ e, files path ≠ .unopenable e) :
    ∃ r, (∀ n, (Command.check source).answer n files stdin = some r) ∧
      (r.exit ≠ 0 → ∃ r', r'.exit = r.exit ∧ r'.stdout = [] ∧
        ∀ n, (Command.run source input).answer n files stdin = some r') ∧
      (r.exit = 0 → ∃ s p m start,
        (files source).text = .ok s ∧ assemble s = .ok p ∧
        r.stdout = utf8 (source ++ ": " ++ countText p.size ++ " instructions, "
          ++ countText (p.instrs.countP fun i => i.opcode = .label) ++ " labels" ++ "\n").toList ∧
        (Command.run source input).prepare files stdin = .ok (m, start) ∧ m.program = p ∧
        (∀ n f t, m.run n start = (some (.fault f), t) → ∀ name, f.cause ≠ .duplicateLabel name) ∧
        ∀ n r', (Command.run source input).answer n files stdin = some r' →
          r'.exit ≤ 9 ∨ 52 ≤ r'.exit ∧ r'.exit ≤ 58) := by
  obtain ⟨b, hb⟩ := exists_openInput files stdin input hinput
  let start := State.start b (Sink.new none) (Sink.new none)
  have hfree : start.IsFree := State.isFree_start b
  refine ⟨checkSource files source, fun _ => rfl, ?_⟩
  cases hload : loadSource files source with
  | error r =>
    obtain ⟨hexit, hout⟩ := failure_of_loadSource files source r hload
    have hcheck : checkSource files source = r := by rw [checkSource, hload]
    rw [hcheck]
    refine ⟨fun _ => ⟨r, rfl, hout, fun n => ?_⟩, fun h => absurd h hexit⟩
    rw [answer, prepare, prepareRun, hload]
    rfl
  | ok p =>
    obtain ⟨s, hs, hp⟩ := assembled_of_loadSource files source p hload
    cases hm : Machine.load p with
    | error f =>
      have hrun := prepareRun_of_fault files stdin source p hload input b hb f hm
      rw [checkSource_of_fault files source p hload f ((Machine.load_eq_error p f).mp hm)]
      refine ⟨fun _ => ⟨Response.ofOutcome start (.fault f), rfl, rfl, fun n => ?_⟩,
        fun h => absurd h f.category.exitCode_ne_zero⟩
      rw [answer, prepare, hrun]
    | ok m =>
      have hprogram := (m.load_eq_ok p).mp hm
      have hlabels : p.labels = .ok m.labels := by
        rw [← hprogram]
        exact m.labels_eq
      have hrun := prepareRun_of_load files stdin source p hload input b hb m hm
      rw [checkSource_of_labels files source p hload m.labels hlabels]
      refine ⟨fun h => absurd rfl h, fun _ => ⟨s, p, m, start, hs, hp, ?_, hrun, hprogram, ?_, ?_⟩⟩
      · rw [← p.size_labels m.labels hlabels]
        rfl
      · intro n f t hf name hcause
        have hpossible := m.possible_of_run start hfree n f t hf
        rw [hcause] at hpossible
        exact hpossible
      · intro n r' hr'
        exact exit_of_answer n files stdin (.run source input) m start hrun hfree r' hr'

/-- a source that defines a label once, and one that does so twice -/
def labelFiles : String → File
  | "once" => .content (utf8 ".IPPcode24\nLABEL x\nEXIT int@3".toList)
  | "twice" => .content (utf8 ".IPPcode24\nLABEL x\nLABEL x".toList)
  | _ => .directory

theorem check_agrees_labels :
    (∃ r, r.exit = 52 ∧ r.stdout = [] ∧
      ∀ n, (Command.run "twice" (some "lines")).answer n labelFiles [] = some r) ∧
    (checkSource labelFiles "once").stdout = utf8 "once: 2 instructions, 1 labels\n".toList ∧
    ∃ r, (Command.run "once" none).answer 2 labelFiles [] = some r ∧
      (r.exit ≤ 9 ∨ 52 ≤ r.exit ∧ r.exit ≤ 58) := by
  have hlines : ∀ path, some "lines" = some path → ∀ e, labelFiles path ≠ .unopenable e := by
    intro path h
    cases h
    exact fun e h => nomatch h
  obtain ⟨r, hr, hfail, _⟩ := check_agrees labelFiles [] "twice" (some "lines") hlines
  obtain ⟨q, hq, _, hpass⟩ := check_agrees labelFiles [] "once" none fun _ h => nomatch h
  have htwice : r.exit = 52 := by
    rw [← Option.some.inj (hr 0)]
    decide
  have honce : q.exit = 0 := by
    rw [← Option.some.inj (hq 0)]
    decide
  obtain ⟨r', hexit, hout, hrun⟩ := hfail (by rw [htwice]; decide)
  obtain ⟨s, p, m, start, _, _, _, _, _, _, hexits⟩ := hpass honce
  have hthree : (Command.run "once" none).answer 2 labelFiles [] = some ⟨3, [], []⟩ := by decide
  exact ⟨⟨r', hexit.trans htwice, hout, hrun⟩, by decide, _, hthree, hexits 2 _ hthree⟩

end Command
end IPPcode24
