import IPPcode24.Proofs.Atomicity
import IPPcode24.Proofs.Definitions
import IPPcode24.Proofs.Portions
import IPPcode24.Proofs.Verdicts

/-!
# The exit codes of `run`

One number says how `run` has ended: that a file could not be read, that the source is malformed,
the code that the program has given, or the category of the failure of an instruction.

* `File.text_eq_ok`          a source is readable if its bytes are those of a text
* `Machine.bytes_of_run`     a channel holds what was written in the steps of a finished run
* `Cause.ExitsWith c n`      the table of the causes of failure and their exit codes
* `Program.Ends p b o w`     the engine ends with `o` on the input `b`, and has written `w`
* `Ends.exitsWith`           **the engine fails with a cause from the table, and its code**
* `Phase`, `Phase.Reached`   how far `run` gets
* `Reached.responds`, `exists_answer`, `of_answer`   **a phase that is reached determines the
                             response, there is one, and every response comes of a phase**
* `Reached.exit_cases`       the exit codes, phase by phase

Main statement, `Command.run_exit_codes`.
-/

namespace IPPcode24

/-! ## files -/

/-- a source is readable if its bytes are those of a text -/
theorem File.text_eq_ok (f : File) (s : List Char) : f.text = .ok s ↔ f = .content (utf8 s) := by
  cases f with
  | unopenable e => exact ⟨fun h => (nomatch h), fun h => (nomatch h)⟩
  | directory => exact ⟨fun h => (nomatch h), fun h => (nomatch h)⟩
  | content b =>
    rw [text, File.content.injEq, ← utf8?_eq_some]
    cases utf8? b with
    | none => exact ⟨fun h => (nomatch h), fun h => (nomatch h)⟩
    | some t => rw [Except.ok.injEq, Option.some.injEq]

theorem File.text_eq_error (f : File) :
    (∃ reason, f.text = .error reason) ↔ ∀ s, f ≠ .content (utf8 s) := by
  cases hf : f.text with
  | error reason =>
    refine ⟨fun _ s hs => ?_, fun _ => ⟨reason, rfl⟩⟩
    rw [(f.text_eq_ok s).mpr hs] at hf
    cases hf
  | ok s =>
    refine ⟨fun h => ?_, fun h => absurd ((f.text_eq_ok s).mp hf) (h s)⟩
    obtain ⟨reason, h⟩ := h
    cases h

/-! ## the engine -/

namespace Machine

variable (m : Machine) (s : State)

/-- what the instructions of the first `n` steps write on a channel -/
def written (n : Nat) (c : Channel) : Bytes :=
  (List.range n).flatMap fun k => utf8 (m.textOn c (m.after k s)).toList

/-- the last step of a run with free channels leads to where all further ones stay -/
theorem fixed_of_last_step (hs : s.IsFree) (o : Outcome) (t : State)
    (h : m.run 1 s = (some o, t)) : (m.step s).state = t ∧ (m.step t).state = t := by
  cases hstep : m.step s with
  | mk u fault =>
    cases fault with
    | some f =>
      rw [m.run_succ_of_fault 0 s u f hstep] at h
      cases h
      have hf : (m.step s).fault = some f := by rw [hstep]
      obtain ⟨_, _, ⟨_, hsame⟩ | ⟨hfull, _⟩⟩ := m.step_of_fault s f hf
      · rw [hsame] at hstep
        cases hstep
        exact ⟨rfl, by rw [hsame]⟩
      · have hpossible := m.possible_of_fault s hs f hf
        rw [hfull] at hpossible
        exact hpossible.elim
    | none =>
      cases hu : u.status with
      | halted code =>
        rw [m.run_succ_of_halted 0 s u code hstep hu] at h
        cases h
        exact ⟨rfl, by rw [m.step_of_halted t code hu]⟩
      | running =>
        rw [m.run_succ_of_running 0 s u hstep hu] at h
        cases h

/-- a run that has ended stays where it is -/
theorem after_of_finished (hs : s.IsFree) (n : Nat) (o : Outcome) (t : State)
    (h : m.run n s = (some o, t)) : m.after n s = t := by
  obtain ⟨k, u, hk, hu, hlast⟩ := m.exists_last_step n s t o h
  have hfree : u.IsFree := m.isFree_of_unfinished s hs k u hu
  obtain ⟨hnext, hfixed⟩ := m.fixed_of_last_step u hfree o t hlast
  obtain ⟨d, rfl⟩ := Nat.exists_eq_add_of_lt hk
  clear h hk
  induction d with
  | zero => rw [Nat.add_zero, after_succ, m.after_of_unfinished k s u hu, hnext]
  | succ d ih => rw [← Nat.add_assoc k d 1, after_succ, ih, hfixed]

theorem bytes_of_run (hs : s.IsFree) (n : Nat) (o : Outcome) (t : State)
    (h : m.run n s = (some o, t)) (c : Channel) :
    (t.sink c).bytes = (s.sink c).bytes ++ m.written s n c := by
  rw [← m.after_of_finished s hs n o t h]
  exact m.bytes_after s c (hs c) n

end Machine

/-! ### the table of exit codes -/

/-- The exit code of each cause with which the engine can end.  An instruction of the wrong shape
and a full channel are not among them. -/
inductive Cause.ExitsWith : Cause → Nat → Prop where
  | duplicateLabel (name : String) : ExitsWith (.duplicateLabel name) 52
  | undefinedLabel (name : String) : ExitsWith (.undefinedLabel name) 52
  | redefined (v : Var) : ExitsWith (.access (.redefined v)) 52
  | operandTypes (op : Opcode) (found : List Ty) : ExitsWith (.operandTypes op found) 53
  | undeclared (v : Var) : ExitsWith (.access (.undeclared v)) 54
  | uninitialized (v : Var) : ExitsWith (.access (.uninitialized v)) 54
  | missingFrame (f : FrameName) : ExitsWith (.access (.missingFrame f)) 55
  | emptyCallStack : ExitsWith .emptyCallStack 56
  | emptyDataStack : ExitsWith .emptyDataStack 56
  | divisionByZero : ExitsWith .divisionByZero 57
  | exitCode (n : Int64) : ExitsWith (.exitCode n) 57
  | charCode (n : Int64) : ExitsWith (.charCode n) 58
  | index (i : Int64) (length : Nat) : ExitsWith (.index i length) 58
  | emptyReplacement : ExitsWith .emptyReplacement 58

namespace Cause.ExitsWith

variable {c : Cause} {n : Nat}

/-- the code is that of the category of the cause -/
theorem category (h : c.ExitsWith n) : c.category.exitCode = n := by cases h <;> rfl

theorem range (h : c.ExitsWith n) : 52 ≤ n ∧ n ≤ 58 := by cases h <;> decide

end Cause.ExitsWith

/-- every cause that an instruction can have is in the table -/
theorem Cause.Possible.exitsWith (t : Labels) (c : Cause) (h : c.Possible t) :
    c.ExitsWith c.category.exitCode := by
  cases c with
  | malformed d => exact h.elim
  | duplicateLabel name => exact h.elim
  | channelFull => exact h.elim
  | undefinedLabel name => exact .undefinedLabel name
  | access e =>
    cases e with
    | redefined v => exact .redefined v
    | undeclared v => exact .undeclared v
    | uninitialized v => exact .uninitialized v
    | missingFrame f => exact .missingFrame f
  | operandTypes op found => exact .operandTypes op found
  | emptyCallStack => exact .emptyCallStack
  | emptyDataStack => exact .emptyDataStack
  | divisionByZero => exact .divisionByZero
  | exitCode n => exact .exitCode n
  | charCode n => exact .charCode n
  | index i length => exact .index i length
  | emptyReplacement => exact .emptyReplacement

/-! ### how the engine ends -/

theorem duplicateLabel_of_labels (p : Program) (f : Fault) (h : p.labels = .error f) :
    ∃ name, f.cause = .duplicateLabel name := by
  obtain ⟨name, hname, _⟩ := (p.labels_eq_error f).mp h
  exact ⟨name, hname⟩

/-- the state in which the engine starts on an input -/
def State.fresh (input : Bytes) : State := .start input (Sink.new none) (Sink.new none)

/-- the engine ends with an outcome, and these bytes have been written -/
inductive Program.Ends (p : Program) (input : Bytes) : Outcome → (Channel → Bytes) → Prop where
  /-- a label is defined twice -/
  | refused (f : Fault) (hf : Machine.load p = .error f) : Ends p input (.fault f) fun _ => []
  | ran (m : Machine) (n : Nat) (o : Outcome) (t : State) (hm : Machine.load p = .ok m)
      (h : m.run n (.fresh input) = (some o, t)) : Ends p input o (m.written (.fresh input) n)

/-- **The engine fails with a cause from the table, and its code.** -/
theorem Program.Ends.exitsWith {p : Program} {input : Bytes} {f : Fault} {w : Channel → Bytes}
    (h : p.Ends input (.fault f) w) : f.cause.ExitsWith f.category.exitCode := by
  cases h with
  | refused f hf =>
    obtain ⟨name, hname⟩ := duplicateLabel_of_labels p f ((Machine.load_eq_error p f).mp hf)
    rw [Fault.category, hname]
    exact .duplicateLabel name
  | ran m n _ t hm h =>
    exact (m.possible_of_run _ (State.isFree_start input) n f t h).exitsWith

/-! ## how far `run` gets -/

inductive Phase where
  /-- the source cannot be read -/
  | unreadable
  /-- the source is not a program -/
  | malformed
  /-- the input cannot be opened -/
  | noInput
  /-- the engine has ended with an outcome, and bytes have been written on the channels -/
  | engine (o : Outcome) (w : Channel → Bytes)

/-- the line that reports a failure -/
def Outcome.line : Outcome → Bytes
  | .exit _ => []
  | .fault f => utf8 ("runtime error: " ++ f.message ++ "\n").toList

def Outcome.exitCode : Outcome → Nat
  | .exit code => code
  | .fault f => f.category.exitCode

namespace Phase

/-- the response is the one for a phase -/
def Responds (r : Response) : Phase → Prop
  | .unreadable | .noInput => r.exit = 11 ∧ r.stdout = []
  | .malformed => r.exit = 32 ∧ r.stdout = []
  | .engine o w => r = ⟨o.exitCode, w .stdout, w .stderr ++ o.line⟩

section
variable (files : String → File) (stdin : Bytes) (source : String) (input : Option String)

inductive Reached : Phase → Prop where
  | unreadable (h : ∀ s, files source ≠ .content (utf8 s)) : Reached .unreadable
  | malformed (s : List Char) (e : SourceError) (hs : files source = .content (utf8 s))
      (he : assemble s = .error e) : Reached .malformed
  | noInput (s : List Char) (p : Program) (path : String) (e : SystemError)
      (hs : files source = .content (utf8 s)) (hp : assemble s = .ok p) (hi : input = some path)
      (he : files path = .unopenable e) : Reached .noInput
  | engine (s : List Char) (p : Program) (b : Bytes) (o : Outcome) (w : Channel → Bytes)
      (hs : files source = .content (utf8 s)) (hp : assemble s = .ok p)
      (hb : openInput files stdin input = .ok b) (h : p.Ends b o w) : Reached (.engine o w)

end
end Phase

/-! ### from phases to responses -/

section
variable (files : String → File) (source : String)

theorem loadSource_of_unreadable (h : ∀ s, files source ≠ .content (utf8 s)) :
    ∃ r, loadSource files source = .error r ∧ r.exit = 11 ∧ r.stdout = [] := by
  obtain ⟨reason, hreason⟩ := (files source).text_eq_error.mpr h
  rw [loadSource, hreason]
  exact ⟨_, rfl, rfl, rfl⟩

variable (s : List Char) (hs : files source = .content (utf8 s))
include hs

theorem loadSource_of_malformed (e : SourceError) (he : assemble s = .error e) :
    ∃ r, loadSource files source = .error r ∧ r.exit = 32 ∧ r.stdout = [] := by
  rw [loadSource, ((files source).text_eq_ok s).mpr hs]
  dsimp only
  rw [he]
  exact ⟨_, rfl, rfl, rfl⟩

theorem loadSource_of_assembled (p : Program) (hp : assemble s = .ok p) :
    loadSource files source = .ok p := by
  rw [loadSource, ((files source).text_eq_ok s).mpr hs]
  dsimp only
  rw [hp]

end

theorem unopenable_of_openInput (files : String → File) (stdin : Bytes) (input : Option String)
    (r : Response) (h : openInput files stdin input = .error r) :
    ∃ path e, input = some path ∧ files path = .unopenable e := by
  cases input with
  | none => cases h
  | some path =>
    rw [openInput] at h
    cases hf : files path with
    | unopenable e => exact ⟨path, e, rfl, hf⟩
    | directory => simp only [hf] at h; cases h
    | content b => simp only [hf] at h; cases h

theorem openInput_of_unopenable (files : String → File) (stdin : Bytes) (path : String)
    (e : SystemError) (h : files path = .unopenable e) :
    ∃ r, openInput files stdin (some path) = .error r ∧ r.exit = 11 ∧ r.stdout = [] := by
  rw [openInput, h]
  exact ⟨_, rfl, rfl, rfl⟩

/-- the response after a run, by what was written in its steps -/
theorem Response.ofOutcome_eq (m : Machine) (input : Bytes) (n : Nat) (o : Outcome) (t : State)
    (h : m.run n (.fresh input) = (some o, t)) :
    ofOutcome t o = ⟨o.exitCode, m.written (.fresh input) n .stdout,
      m.written (.fresh input) n .stderr ++ o.line⟩ := by
  have hbytes := m.bytes_of_run _ (State.isFree_start input) n o t h
  have hout : t.stdout.bytes = m.written (.fresh input) n .stdout := hbytes .stdout
  have herr : t.stderr.bytes = m.written (.fresh input) n .stderr := hbytes .stderr
  cases o with
  | exit code => rw [ofOutcome, hout, herr, Outcome.line, List.append_nil]; rfl
  | fault f => rw [ofOutcome, hout, herr]; rfl

namespace Phase.Reached

variable {files : String → File} {stdin : Bytes} {source : String} {input : Option String}
  {φ : Phase}

/-- in every phase but the last there is a response without a run -/
theorem prepare (h : Reached files stdin source input φ) :
    (∃ r, (Command.run source input).prepare files stdin = .error r ∧ φ.Responds r) ∨
    ∃ m b n o t, (Command.run source input).prepare files stdin = .ok (m, .fresh b) ∧
      m.run n (.fresh b) = (some o, t) ∧ φ = .engine o (m.written (.fresh b) n) := by
  cases h with
  | unreadable h =>
    obtain ⟨r, hr, hexit, hout⟩ := loadSource_of_unreadable files source h
    exact .inl ⟨r, by rw [Command.prepare, prepareRun, hr]; rfl, hexit, hout⟩
  | malformed s e hs he =>
    obtain ⟨r, hr, hexit, hout⟩ := loadSource_of_malformed files source s hs e he
    exact .inl ⟨r, by rw [Command.prepare, prepareRun, hr]; rfl, hexit, hout⟩
  | noInput s p path e hs hp hi he =>
    have hload := loadSource_of_assembled files source s hs p hp
    obtain ⟨r, hr, hexit, hout⟩ := openInput_of_unopenable files stdin path e he
    exact .inl ⟨r, by rw [Command.prepare, prepareRun, hload, hi, hr]; rfl, hexit, hout⟩
  | engine s p b o w hs hp hb h =>
    have hload := loadSource_of_assembled files source s hs p hp
    cases h with
    | refused f hf =>
      exact .inl ⟨_, prepareRun_of_fault files stdin source p hload input b hb f hf, rfl⟩
    | ran m n _ t hm h =>
      exact .inr ⟨m, b, n, o, t, prepareRun_of_load files stdin source p hload input b hb m hm, h,
        rfl⟩

/-- **The phase determines the response.** -/
theorem responds (h : Reached files stdin source input φ) (n : Nat) (r : Response)
    (hr : (Command.run source input).answer n files stdin = some r) : φ.Responds r := by
  rw [Command.answer] at hr
  obtain ⟨r', hprepare, hresponds⟩ | ⟨m, b, k, o, t, hprepare, hrun, rfl⟩ := h.prepare
  · rw [hprepare] at hr
    rw [← Option.some.inj hr]
    exact hresponds
  · rw [hprepare] at hr
    cases hn : m.run n (.fresh b) with
    | mk o' t' =>
      simp only [hn] at hr
      cases o' with
      | none => cases hr
      | some o' =>
        obtain ⟨rfl, rfl⟩ := m.run_unique k _ t n t' o o' hrun hn
        rw [← Option.some.inj hr]
        exact Response.ofOutcome_eq m b k _ _ hrun

theorem exists_answer (h : Reached files stdin source input φ) :
    ∃ n r, (Command.run source input).answer n files stdin = some r := by
  obtain ⟨r, hprepare, _⟩ | ⟨m, b, n, o, t, hprepare, hrun, _⟩ := h.prepare
  · exact ⟨0, r, by rw [Command.answer, hprepare]⟩
  · refine ⟨n, Response.ofOutcome t o, ?_⟩
    rw [Command.answer, hprepare]
    dsimp only
    rw [hrun]

/-- **Every response comes of a phase.** -/
theorem of_answer (n : Nat) (r : Response)
    (hr : (Command.run source input).answer n files stdin = some r) :
    ∃ φ, Reached files stdin source input φ := by
  cases htext : (files source).text with
  | error reason =>
    exact ⟨_, .unreadable ((files source).text_eq_error.mp ⟨reason, htext⟩)⟩
  | ok s =>
    have hs := ((files source).text_eq_ok s).mp htext
    cases hp : assemble s with
    | error e => exact ⟨_, .malformed s e hs hp⟩
    | ok p =>
      have hload := loadSource_of_assembled files source s hs p hp
      cases hb : openInput files stdin input with
      | error r =>
        obtain ⟨path, e, hi, he⟩ := unopenable_of_openInput files stdin input r hb
        exact ⟨_, .noInput s p path e hs hp hi he⟩
      | ok b =>
        cases hm : Machine.load p with
        | error f => exact ⟨_, .engine s p b _ _ hs hp hb (.refused f hm)⟩
        | ok m =>
          rw [Command.answer, Command.prepare,
            prepareRun_of_load files stdin source p hload input b hb m hm] at hr
          dsimp only at hr
          cases hn : m.run n (.start b (Sink.new none) (Sink.new none)) with
          | mk o t =>
            rw [hn] at hr
            cases o with
            | none => cases hr
            | some o => exact ⟨_, .engine s p b o _ hs hp hb (.ran m n o t hm hn)⟩

section
variable (n : Nat) (r : Response)
  (hr : (Command.run source input).answer n files stdin = some r)
include hr

/-- the exit code is the one that the table has for the cause of the failure -/
theorem exitsWith_iff (f : Fault) (w : Channel → Bytes)
    (h : Reached files stdin source input (.engine (.fault f) w)) (c : Nat) :
    f.cause.ExitsWith c ↔ r.exit = c := by
  have hexit : r.exit = f.category.exitCode := congrArg Response.exit (h.responds n r hr)
  have htable : f.cause.ExitsWith f.category.exitCode := by
    cases h with
    | engine s p b _ _ hs hp hb h => exact h.exitsWith
  rw [hexit]
  refine ⟨fun hc => hc.category, fun hc => ?_⟩
  rwa [hc] at htable

/-- the exit code of a response, with the phase it comes of -/
theorem exit_cases :
    r.exit = 11 ∧ (Reached files stdin source input .unreadable ∨
      Reached files stdin source input .noInput) ∨
    r.exit = 32 ∧ Reached files stdin source input .malformed ∨
    (∃ code : Fin 10, r.exit = code ∧
      ∃ w, Reached files stdin source input (.engine (.exit code) w)) ∨
    ∃ f w, Reached files stdin source input (.engine (.fault f) w) ∧
      f.category.exitCode = r.exit ∧ 52 ≤ r.exit ∧ r.exit ≤ 58 := by
  obtain ⟨φ, h⟩ := of_answer n r hr
  have hresponds := h.responds n r hr
  cases φ with
  | unreadable => exact .inl ⟨hresponds.1, .inl h⟩
  | noInput => exact .inl ⟨hresponds.1, .inr h⟩
  | malformed => exact .inr (.inl ⟨hresponds.1, h⟩)
  | engine o w =>
    have hexit : r.exit = o.exitCode := congrArg Response.exit hresponds
    cases o with
    | exit code => exact .inr (.inr (.inl ⟨code, hexit, w, h⟩))
    | fault f =>
      have htable : f.cause.ExitsWith r.exit := (exitsWith_iff n r hr f w h r.exit).mpr rfl
      exact .inr (.inr (.inr ⟨f, w, h, hexit.symm, htable.range⟩))

theorem exit_file_iff : r.exit = 11 ↔ Reached files stdin source input .unreadable ∨
    Reached files stdin source input .noInput := by
  constructor
  · intro h
    obtain ⟨_, hφ⟩ | ⟨h', _⟩ | ⟨code, h', _⟩ | ⟨f, w, _, _, h', _⟩ := exit_cases n r hr
    · exact hφ
    all_goals omega
  · intro h
    obtain h | h := h
    · exact (h.responds n r hr).1
    · exact (h.responds n r hr).1

theorem exit_source_iff : r.exit = 32 ↔ Reached files stdin source input .malformed := by
  constructor
  · intro h
    obtain ⟨h', _⟩ | ⟨_, hφ⟩ | ⟨code, h', _⟩ | ⟨f, w, _, _, h', _⟩ := exit_cases n r hr
    case inr.inl => exact hφ
    all_goals omega
  · intro h
    exact (h.responds n r hr).1

theorem exit_code_iff (code : Fin 10) :
    r.exit = code ↔ ∃ w, Reached files stdin source input (.engine (.exit code) w) := by
  constructor
  · intro h
    obtain ⟨h', _⟩ | ⟨h', _⟩ | ⟨code', h', hφ⟩ | ⟨f, w, _, _, h', _⟩ := exit_cases n r hr
    case inr.inr.inl =>
      have hcode : code' = code := Fin.ext (h'.symm.trans h)
      rwa [hcode] at hφ
    all_goals omega
  · intro h
    obtain ⟨w, h⟩ := h
    exact congrArg Response.exit (h.responds n r hr)

theorem exit_category_iff (c : Nat) (hlo : 52 ≤ c) (hhi : c ≤ 58) :
    r.exit = c ↔ ∃ f w, Reached files stdin source input (.engine (.fault f) w) ∧
      f.category.exitCode = c := by
  constructor
  · intro h
    obtain ⟨h', _⟩ | ⟨h', _⟩ | ⟨code, h', _⟩ | ⟨f, w, hφ, hf, _⟩ := exit_cases n r hr
    case inr.inr.inr => exact ⟨f, w, hφ, hf.trans h⟩
    all_goals omega
  · intro h
    obtain ⟨f, w, h, hf⟩ := h
    exact (congrArg Response.exit (h.responds n r hr)).trans hf

theorem exit_range : r.exit ≤ 9 ∨ r.exit = 11 ∨ r.exit = 32 ∨ 52 ≤ r.exit ∧ r.exit ≤ 58 := by
  obtain ⟨h, _⟩ | ⟨h, _⟩ | ⟨code, h, _⟩ | ⟨f, w, _, _, h⟩ := exit_cases n r hr
  all_goals omega

theorem output_of_engine (o : Outcome) (w : Channel → Bytes)
    (h : Reached files stdin source input (.engine o w)) :
    r.stdout = w .stdout ∧ r.stderr = w .stderr ++ o.line := by
  rw [h.responds n r hr]
  exact ⟨rfl, rfl⟩

theorem no_output (h : ∀ o w, ¬Reached files stdin source input (.engine o w)) :
    r.stdout = [] := by
  obtain ⟨φ, hφ⟩ := of_answer n r hr
  have hresponds := hφ.responds n r hr
  cases φ with
  | engine o w => exact absurd hφ (h o w)
  | _ => exact hresponds.2

end
end Phase.Reached

/-! ## the main statement -/

namespace Command

/-- **The exit code says how `run` has ended, and no output is lost.**  A response comes if the
source cannot be read as text, if it is not that of a program, if it is and the input cannot be
opened, or if the engine ends, and not otherwise.  The exit code is 11 in the first and the third of
these cases and only then, 32 in the second and only then, and with the engine it is the code that
the program has ended with, from 0 to 9, or the one of the category of its failure, from 52 to 58.
That is the one code which the table `Cause.ExitsWith` has for the cause of the failure.  No other
exit code is possible, 99 for one.  Once the engine has ended, the standard output is what the
instructions that were executed have written there, and standard error what they have written there
and a line about the failure, if there was one; without the engine the standard output is empty.
All of this is what is handed on in portions, put together. -/
theorem run_exit_codes (files : String → File) (stdin : Bytes) (source : String)
    (input : Option String) :
    let Reached := Phase.Reached files stdin source input
    ((∃ n r, (Command.run source input).answer n files stdin = some r) ↔ ∃ φ, Reached φ) ∧
    ∀ n r, (Command.run source input).answer n files stdin = some r →
      (r.exit = 11 ↔ Reached .unreadable ∨ Reached .noInput) ∧
      (r.exit = 32 ↔ Reached .malformed) ∧
      (∀ code : Fin 10, r.exit = code ↔ ∃ w, Reached (.engine (.exit code) w)) ∧
      (∀ c, 52 ≤ c → c ≤ 58 →
        (r.exit = c ↔ ∃ f w, Reached (.engine (.fault f) w) ∧ f.category.exitCode = c)) ∧
      (∀ f w, Reached (.engine (.fault f) w) → ∀ c, f.cause.ExitsWith c ↔ r.exit = c) ∧
      (r.exit ≤ 9 ∨ r.exit = 11 ∨ r.exit = 32 ∨ 52 ≤ r.exit ∧ r.exit ≤ 58) ∧
      (∀ o w, Reached (.engine o w) → r.stdout = w .stdout ∧ r.stderr = w .stderr ++ o.line) ∧
      ((∀ o w, ¬Reached (.engine o w)) → r.stdout = []) ∧
      (Command.run source input).deliver n files stdin = some r := by
  intro Reached
  refine ⟨⟨fun ⟨n, r, h⟩ => Phase.Reached.of_answer n r h, fun ⟨φ, h⟩ => h.exists_answer⟩,
    fun n r hr => ⟨?_, ?_, ?_, ?_, ?_, ?_, ?_, ?_, ?_⟩⟩
  · exact Phase.Reached.exit_file_iff n r hr
  · exact Phase.Reached.exit_source_iff n r hr
  · exact Phase.Reached.exit_code_iff n r hr
  · exact Phase.Reached.exit_category_iff n r hr
  · exact Phase.Reached.exitsWith_iff n r hr
  · exact Phase.Reached.exit_range n r hr
  · exact Phase.Reached.output_of_engine n r hr
  · exact Phase.Reached.no_output n r hr
  · rw [deliver_eq_answer, hr]

/-- a program that greets and then exits with a code that there is not -/
def greetingFiles : String → File
  | "greeting" => .content (utf8 ".IPPcode24\nWRITE string@hi\nEXIT int@42".toList)
  | _ => .unopenable .notFound

/-- every file has the instructions that are its path -/
def instructionFiles (path : String) : File := .content (utf8 (".IPPcode24\n" ++ path).toList)

/-- instructions that fail, one way for each cause in the table, and the exit codes -/
def failingPaths : List (String × Nat) := [
  ("LABEL a\nLABEL a", 52),
  ("JUMP a", 52),
  ("DEFVAR GF@x\nDEFVAR GF@x", 52),
  ("EXIT string@", 53),
  ("WRITE GF@x", 54),
  ("DEFVAR GF@x\nWRITE GF@x", 54),
  ("PUSHFRAME", 55),
  ("RETURN", 56),
  ("DEFVAR GF@x\nPOPS GF@x", 56),
  ("DEFVAR GF@x\nIDIV GF@x int@1 int@0", 57),
  ("EXIT int@10", 57),
  ("DEFVAR GF@x\nINT2CHAR GF@x int@-1", 58),
  ("DEFVAR GF@x\nSTRI2INT GF@x string@ int@0", 58),
  ("DEFVAR GF@x\nMOVE GF@x string@a\nSETCHAR GF@x int@0 string@", 58)]

theorem run_exit_codes_failing :
    let r : Response := ⟨57, utf8 "hi".toList,
      utf8 "runtime error: exit code 42 out of range 0..=9 at instruction 1\n".toList⟩
    (Command.run "greeting" none).answer 2 greetingFiles [] = some r ∧
    (Command.run "greeting" none).deliver 2 greetingFiles [] = some r ∧
    (∃ f w, Phase.Reached greetingFiles [] "greeting" none (.engine (.fault f) w) ∧
      f.category.exitCode = 57 ∧ f.cause.ExitsWith 57 ∧ w .stdout = utf8 "hi".toList) ∧
    ∀ e ∈ failingPaths, ∃ r f w,
      (Command.run e.1 none).answer 3 instructionFiles [] = some r ∧ r.exit = e.2 ∧
      Phase.Reached instructionFiles [] e.1 none (.engine (.fault f) w) ∧
      f.cause.ExitsWith e.2 := by
  intro r
  have hr : (Command.run "greeting" none).answer 2 greetingFiles [] = some r := by
    decide +kernel
  obtain ⟨_, hall⟩ := run_exit_codes greetingFiles [] "greeting" none
  obtain ⟨_, _, _, hcategory, htable, _, hout, _, hdeliver⟩ := hall 2 r hr
  obtain ⟨f, w, h, hf⟩ := (hcategory 57 (by decide) (by decide)).mp rfl
  refine ⟨hr, hdeliver, ⟨f, w, h, hf, (htable f w h 57).mpr rfl, (hout _ w h).1.symm⟩,
    fun e he => ?_⟩
  have hexits : ∀ e ∈ failingPaths, 52 ≤ e.2 ∧ e.2 ≤ 58 ∧
      ((Command.run e.1 none).answer 3 instructionFiles []).map Response.exit = some e.2 := by
    decide +kernel
  obtain ⟨hlo, hhi, hexit⟩ := hexits e he
  obtain ⟨r, hr, hcode⟩ := Option.map_eq_some_iff.mp hexit
  obtain ⟨_, hall⟩ := run_exit_codes instructionFiles [] e.1 none
  obtain ⟨_, _, _, hcategory, htable, _⟩ := hall 3 r hr
  obtain ⟨f, w, h, _⟩ := (hcategory e.2 hlo hhi).mp hcode
  exact ⟨r, f, w, hr, hcode, h, (htable f w h e.2).mpr hcode⟩

end Command
end IPPcode24
