import IPPcode24.Proofs.RenamedFrames

/-!
# Two machines side by side

One machine mirrors another if its program has the same instructions, with other names and perhaps
at other places, and labels and return indices lead to the same instructions.

* `Mirror`                   the other names and the other places
* `Memory.Mirrors`, `Effect.Mirrors`, `State.Mirrors`   what corresponds
* `Memory.Mirrors.value`, `setVar`, ...   access to memories that correspond
* `Instr.effect_mirrors`     **an instruction has effects that correspond, or none for one cause**
* `Machine.step_mirrors`     steps of one instruction at its two places
-/

namespace IPPcode24

structure Mirror where
  names : Renaming
  /-- the names of the variables that are used -/
  used : Set String
  injOn : Set.InjOn names.var used
  /-- where the labels of an index lead instead -/
  place : Nat → Nat
  /-- where a return to an index leads instead -/
  back : Nat → Nat

/-! ## what corresponds -/

section
variable (w : Mirror)

structure Memory.Mirrors (m n : Memory) : Prop where
  frames : m.frames.Renamed w.used w.names.var n.frames
  calls : n.calls = m.calls.map w.back
  data : n.data = m.data
  input : n.input = m.input

inductive Course.Mirrors : Course → Course → Prop where
  | ahead : Mirrors .ahead .ahead
  | label (i : Nat) : Mirrors (.goto i) (.goto (w.place i))
  | back (i : Nat) : Mirrors (.goto i) (.goto (w.back i))
  | stop (code : Fin 10) : Mirrors (.stop code) (.stop code)

/-- the same on standard output; on standard error only that there is something -/
inductive SameOutput : Option (Channel × String) → Option (Channel × String) → Prop where
  | refl (o : Option (Channel × String)) : SameOutput o o
  | stderr (text text' : String) : SameOutput (some (.stderr, text)) (some (.stderr, text'))

structure Effect.Mirrors (e f : Effect) : Prop where
  memory : e.memory.Mirrors w f.memory
  course : e.course.Mirrors w f.course
  output : SameOutput e.output f.output

/-- states at whatever places, with room for everything on standard error -/
structure State.Mirrors (s s' : State) : Prop where
  memory : s.memory.Mirrors w s'.memory
  status : s'.status = s.status
  stdout : s'.stdout = s.stdout
  stderr : s.stderr.limit = none
  stderr' : s'.stderr.limit = none

end

theorem State.mirrors_start (w : Mirror) (input : Bytes) (stdout : Option Nat) :
    State.Mirrors w (.start input (Sink.new stdout) (Sink.new none))
      (.start input (Sink.new stdout) (Sink.new none)) where
  memory := ⟨.empty _ _, rfl, rfl, rfl⟩
  status := rfl
  stdout := rfl
  stderr := rfl
  stderr' := rfl

theorem Course.Mirrors.status_eq {w : Mirror} {c d : Course} (h : c.Mirrors w d) :
    d.status = c.status := by
  cases h <;> rfl

/-- where nothing is at another place courses lead to the same place -/
theorem Course.Mirrors.eq_of_id {w : Mirror} {c d : Course} (hplace : w.place = id)
    (hback : w.back = id) (h : c.Mirrors w d) : d = c := by
  cases h with
  | label i => rw [hplace, id]
  | back i => rw [hback, id]
  | _ => rfl

/-! ## access to the memory -/

theorem Alike.ofAccess {α β : Type} {ρ : Renaming} {R : α → β → Prop} {r : Except AccessError α}
    {q : Except AccessError β} (h : Alike (AccessError.rename ρ) R r q) :
    Alike (Cause.rename ρ) R (ofAccess r) (ofAccess q) := by
  cases h with
  | ok a b h => exact .ok a b h
  | error e => exact .error (Cause.access e)

namespace Memory.Mirrors

section
variable {w : Mirror} {m n : Memory} (h : m.Mirrors w n)
include h

theorem with_frames (fs gs : Frames) (hf : fs.Renamed w.used w.names.var gs) :
    Memory.Mirrors w { m with frames := fs } { n with frames := gs } :=
  ⟨hf, h.calls, h.data, h.input⟩

theorem pushCall (i : Nat) : (m.pushCall i).Mirrors w (n.pushCall (w.back i)) :=
  ⟨h.frames, congrArg (w.back i :: ·) h.calls, h.data, h.input⟩

theorem pushData (x : Value) : (m.pushData x).Mirrors w (n.pushData x) :=
  ⟨h.frames, h.calls, congrArg (x :: ·) h.data, h.input⟩

theorem popCall : Alike (Cause.rename w.names) (fun p q => q.1 = w.back p.1 ∧ p.2.Mirrors w q.2)
    m.popCall n.popCall := by
  rw [Memory.popCall, Memory.popCall, h.calls]
  cases m.calls with
  | nil => exact .error Cause.emptyCallStack
  | cons i calls => exact .ok _ _ ⟨rfl, h.frames, rfl, h.data, h.input⟩

theorem popData : Alike (Cause.rename w.names) (fun p q => q.1 = p.1 ∧ p.2.Mirrors w q.2)
    m.popData n.popData := by
  rw [Memory.popData, Memory.popData, h.data]
  cases m.data with
  | nil => exact .error Cause.emptyDataStack
  | cons x data => exact .ok _ _ ⟨rfl, h.frames, h.calls, rfl, h.input⟩

section
variable (dst : Var) (hdst : dst.name ∈ w.used)
include hdst

theorem checkTarget : Alike (Cause.rename w.names) Eq (m.checkTarget dst)
    (n.checkTarget (dst.rename w.names)) := (h.frames.require w.injOn dst hdst).ofAccess

theorem read : Alike (Cause.rename w.names) Eq (IPPcode24.ofAccess (m.frames.read dst))
    (IPPcode24.ofAccess (n.frames.read (dst.rename w.names))) :=
  (h.frames.read w.injOn dst hdst).ofAccess

/-- what a writing instruction does in the end -/
theorem setVar_ahead (x : Value) : Alike (Cause.rename w.names) (Effect.Mirrors w)
    (m.setVar dst x >>= fun m => .ok (Effect.ahead m))
    (n.setVar (dst.rename w.names) x >>= fun n => .ok (Effect.ahead n)) := by
  have hassign := (h.frames.assign w.injOn dst hdst x).ofAccess
  exact (hassign.map h.with_frames).bind fun _ _ hm => .ok _ _ ⟨hm, .ahead, .refl none⟩

end

section
variable (a : Symbol) (ha : ∀ v, a.operand = .var v → v.name ∈ w.used)
include ha

theorem value : Alike (Cause.rename w.names) Eq (m.value a) (n.value (a.rename w.names)) := by
  cases a with
  | literal x => exact .ok x x rfl
  | var v => exact h.read v (ha v rfl)

theorem typeName :
    Alike (Cause.rename w.names) Eq (m.typeName a) (n.typeName (a.rename w.names)) := by
  cases a with
  | literal x => exact .ok _ _ rfl
  | var v =>
    refine (h.frames.slot w.injOn v (ha v rfl)).ofAccess.bind ?_
    rintro s _ rfl
    cases s with
    | uninitialized => exact .ok _ _ rfl
    | holds x => exact .ok _ _ rfl

end
end
end Memory.Mirrors

/-! ## effects -/

section
variable {w : Mirror} {t t' : Labels}

theorem Labels.target_alike (name : String)
    (hl : t'.find? (w.names.label name) = (t.find? name).map w.place) :
    Alike (Cause.rename w.names) (fun i j => j = w.place i) (t.target name)
      (t'.target (w.names.label name)) := by
  rw [Labels.target, Labels.target, hl]
  cases t.find? name with
  | some i => exact .ok _ _ rfl
  | none => exact .error (Cause.undefinedLabel name)

/-- **An instruction has effects that correspond, or none for the same cause.** -/
theorem Instr.effect_mirrors (s s' : State) (order order' : Nat) (i : Instr)
    (h : s.memory.Mirrors w s'.memory)
    (hv : ∀ v, Operand.var v ∈ i.operands → v.name ∈ w.used)
    (hl : ∀ name, i.destination? = some name →
      t'.find? (w.names.label name) = (t.find? name).map w.place)
    (hback : s'.pc + 1 = w.back (s.pc + 1)) :
    Alike (Cause.rename w.names) (Effect.Mirrors w) (i.effect t s order)
      ((i.rename w.names).effect t' s' order') := by
  have hsymbol : ∀ a : Symbol, a.operand ∈ i.operands → ∀ v, a.operand = .var v →
      v.name ∈ w.used := fun a ha v hav => hv v (hav ▸ ha)
  have hvalues : ∀ {α : Type} {r : Except Cause α}, FailsWith Cause.OfValues r →
      Alike (Cause.rename w.names) Eq r r := fun hr =>
    .of_fails hr (Cause.OfValues.rename_eq w.names)
  cases i with
  | createFrame => exact .ok _ _ ⟨h.with_frames _ _ h.frames.create, .ahead, .refl none⟩
  | pushFrame =>
    exact h.frames.push.ofAccess.bind fun fs gs hf =>
      .ok _ _ ⟨h.with_frames fs gs hf, .ahead, .refl none⟩
  | popFrame =>
    exact h.frames.pop.ofAccess.bind fun fs gs hf =>
      .ok _ _ ⟨h.with_frames fs gs hf, .ahead, .refl none⟩
  | defVar v =>
    exact (h.frames.declare w.injOn v (hv v (by simp [operands]))).ofAccess.bind fun fs gs hf =>
      .ok _ _ ⟨h.with_frames fs gs hf, .ahead, .refl none⟩
  | call name =>
    refine (Labels.target_alike name (hl name rfl)).bind ?_
    rintro i _ rfl
    rw [hback]
    exact .ok _ _ ⟨h.pushCall _, .label i, .refl none⟩
  | ret =>
    refine h.popCall.bind ?_
    rintro ⟨i, m⟩ ⟨_, n⟩ ⟨rfl, hm⟩
    exact .ok _ _ ⟨hm, .back i, .refl none⟩
  | pushs a =>
    refine (h.value a (hsymbol a (by simp [operands]))).bind ?_
    rintro x _ rfl
    exact .ok _ _ ⟨h.pushData x, .ahead, .refl none⟩
  | pops dst =>
    have hdst := hv dst (by simp [operands])
    refine (h.checkTarget dst hdst).bind fun _ _ _ => ?_
    refine h.popData.bind ?_
    rintro ⟨x, m⟩ ⟨_, n⟩ ⟨rfl, hm⟩
    exact hm.setVar_ahead dst hdst _
  | unary f dst a =>
    have hdst := hv dst (by simp [operands])
    refine (h.checkTarget dst hdst).bind fun _ _ _ => ?_
    refine (h.value a (hsymbol a (by simp [operands]))).bind ?_
    rintro x _ rfl
    refine (hvalues (f.apply_fails x)).bind ?_
    rintro y _ rfl
    exact h.setVar_ahead dst hdst y
  | binary f dst a b =>
    have hdst := hv dst (by simp [operands])
    refine (h.checkTarget dst hdst).bind fun _ _ _ => ?_
    refine (h.value a (hsymbol a (by simp [operands]))).bind ?_
    rintro x _ rfl
    refine (h.value b (hsymbol b (by simp [operands]))).bind ?_
    rintro y _ rfl
    refine (hvalues (f.apply_fails x y)).bind ?_
    rintro z _ rfl
    exact h.setVar_ahead dst hdst z
  | setChar dst a b =>
    have hdst := hv dst (by simp [operands])
    refine (h.checkTarget dst hdst).bind fun _ _ _ => ?_
    refine (h.read dst hdst).bind ?_
    rintro x _ rfl
    refine (h.value a (hsymbol a (by simp [operands]))).bind ?_
    rintro y _ rfl
    refine (h.value b (hsymbol b (by simp [operands]))).bind ?_
    rintro z _ rfl
    refine (hvalues (setChar_fails x y z)).bind ?_
    rintro u _ rfl
    exact h.setVar_ahead dst hdst u
  | type dst a =>
    have hdst := hv dst (by simp [operands])
    refine (h.checkTarget dst hdst).bind fun _ _ _ => ?_
    refine (h.typeName a (hsymbol a (by simp [operands]))).bind ?_
    rintro name _ rfl
    exact h.setVar_ahead dst hdst _
  | read dst ty =>
    have hdst := hv dst (by simp [operands])
    refine (h.checkTarget dst hdst).bind fun _ _ _ => ?_
    -- both take the same line from the same input
    have hrest : Memory.Mirrors w { s.memory with input := (Input.read ty s.memory.input).2 }
        { s'.memory with input := (Input.read ty s.memory.input).2 } :=
      ⟨h.frames, h.calls, h.data, rfl⟩
    rw [h.input]
    exact hrest.setVar_ahead dst hdst _
  | print channel a =>
    refine (h.value a (hsymbol a (by simp [operands]))).bind ?_
    rintro x _ rfl
    exact .ok _ _ ⟨h, .ahead, .refl _⟩
  | label name => exact .ok _ _ ⟨h, .ahead, .refl none⟩
  | jump name =>
    refine (Labels.target_alike name (hl name rfl)).bind ?_
    rintro i _ rfl
    exact .ok _ _ ⟨h, .label i, .refl none⟩
  | jumpIf verdict name a b =>
    refine (Labels.target_alike name (hl name rfl)).bind ?_
    rintro i _ rfl
    refine (h.value a (hsymbol a (by simp [operands]))).bind ?_
    rintro x _ rfl
    refine (h.value b (hsymbol b (by simp [operands]))).bind ?_
    rintro y _ rfl
    rw [opcode_rename]
    refine (hvalues (equal_fails _ x y)).bind ?_
    rintro e _ rfl
    by_cases he : e = verdict
    · rw [if_pos he, if_pos he]
      exact .ok _ _ ⟨h, .label i, .refl none⟩
    · rw [if_neg he, if_neg he]
      exact .ok _ _ ⟨h, .ahead, .refl none⟩
  | exit a =>
    refine (h.value a (hsymbol a (by simp [operands]))).bind ?_
    rintro x _ rfl
    refine (hvalues (exitCode_fails x)).bind ?_
    rintro code _ rfl
    exact .ok _ _ ⟨h, .stop code, .refl none⟩
  | brk => exact .ok _ _ ⟨h, .ahead, .stderr _ _⟩

end

/-! ## steps -/

namespace State.Mirrors

section
variable {w : Mirror} {s s' : State} (h : s.Mirrors w s') (o o' : Option (Channel × String))
  (ho : SameOutput o o')
include h ho

theorem hasRoom_eq : s'.hasRoom o' = s.hasRoom o := by
  cases ho with
  | refl o =>
    match o with
    | none => rfl
    | some (.stdout, text) => rw [hasRoom, hasRoom, sink, sink, h.stdout]
    | some (.stderr, text) => simp only [hasRoom, sink, Sink.fits, h.stderr, h.stderr']
  | stderr text text' => simp only [hasRoom, sink, Sink.fits, h.stderr, h.stderr']

theorem emit : (s.emit o).Mirrors w (s'.emit o') := by
  cases ho with
  | refl o =>
    match o with
    | none => exact h
    | some (.stdout, text) =>
      exact ⟨h.memory, h.status, congrArg (Sink.push · _) h.stdout, h.stderr, h.stderr'⟩
    | some (.stderr, text) => exact ⟨h.memory, h.status, h.stdout, h.stderr, h.stderr'⟩
  | stderr text text' => exact ⟨h.memory, h.status, h.stdout, h.stderr, h.stderr'⟩

end

/-- where there is no room the text is for standard output -/
theorem eq_of_not_hasRoom {w : Mirror} {s s' : State} (h : s.Mirrors w s')
    (o o' : Option (Channel × String)) (ho : SameOutput o o') (hroom : s.hasRoom o = false) :
    o' = o := by
  cases ho with
  | refl o => rfl
  | stderr text text' => simp [hasRoom, sink, Sink.fits, h.stderr] at hroom

/-- past the last instruction both halt -/
theorem halt {w : Mirror} {s s' : State} (h : s.Mirrors w s') :
    State.Mirrors w { s with status := .halted 0 } { s' with status := .halted 0 } where
  memory := h.memory
  status := rfl
  stdout := h.stdout
  stderr := h.stderr
  stderr' := h.stderr'

theorem perform {w : Mirror} {s s' : State} (h : s.Mirrors w s') (e f : Effect)
    (he : e.Mirrors w f) : (s.perform e).Mirrors w (s'.perform f) where
  memory := he.memory
  status := he.course.status_eq
  stdout := (h.emit _ _ he.output).stdout
  stderr := (h.emit _ _ he.output).stderr
  stderr' := (h.emit _ _ he.output).stderr'

end State.Mirrors

/-- the ways in which two machines execute one instruction, in the states `s` and `s'` -/
inductive Stepped.Mirrors (w : Mirror) (s s' : State) : Stepped → Stepped → Prop where
  /-- after the part of the text that fits, where the cause is that not all does -/
  | fault (o : Option (Channel × String)) (c : Cause) :
    Mirrors w s s' ⟨s.emit o, some ⟨s.pc, c⟩⟩ ⟨s'.emit o, some ⟨s'.pc, c.rename w.names⟩⟩
  | done (e f : Effect) (he : e.Mirrors w f) :
    Mirrors w s s' ⟨s.perform e, none⟩ ⟨s'.perform f, none⟩

theorem Stepped.Mirrors.state {w : Mirror} {s s' : State} {u u' : Stepped}
    (hu : Stepped.Mirrors w s s' u u') (h : s.Mirrors w s') : u.state.Mirrors w u'.state := by
  cases hu with
  | fault o c => exact h.emit o o (.refl o)
  | done e f he => exact h.perform e f he

/-- **Steps of one instruction at its two places correspond.** -/
theorem Machine.step_mirrors {w : Mirror} (m m' : Machine) (s s' : State) (r r' : Record)
    (h : s.Mirrors w s') (hs : s.status = .running) (hr : m.program.get? s.pc = some r)
    (hr' : m'.program.get? s'.pc = some r') (hi : r'.instr = r.instr.rename w.names)
    (hv : m.program.variableNames ⊆ w.used)
    (hl : ∀ name ∈ m.program.labelNames,
      m'.labels.find? (w.names.label name) = (m.labels.find? name).map w.place)
    (hback : s'.pc + 1 = w.back (s.pc + 1)) :
    Stepped.Mirrors w s s' (m.step s) (m'.step s') := by
  have hmem := m.mem_instrs_of_instr? s.pc _ (m.instr?_of_get? s.pc r hr)
  have heffect := r.instr.effect_mirrors s s' r.order r'.order h.memory
    (fun v hvar => hv ⟨r.instr, hmem, v.frame, hvar⟩)
    (fun name hname => hl name ⟨r.instr, hmem, r.instr.mem_operands_of_destination? name hname⟩)
    hback
  rw [m.step_of_get? s r hs hr, m'.step_of_get? s' r' (h.status.trans hs) hr', hi]
  generalize r.instr.effect m.labels s r.order = x,
    (r.instr.rename w.names).effect m'.labels s' r'.order = y at heffect
  cases heffect with
  | error c => exact .fault none c
  | ok e f he =>
    rw [State.finish, State.finish, h.hasRoom_eq _ _ he.output]
    cases hroom : s.hasRoom e.output with
    | true => exact .done e f he
    | false =>
      rw [h.eq_of_not_hasRoom _ _ he.output hroom, if_neg Bool.false_ne_true,
        if_neg Bool.false_ne_true, Stepped.ofResult, Stepped.ofResult, State.emit_pc, State.emit_pc]
      exact .fault e.output .channelFull

end IPPcode24
