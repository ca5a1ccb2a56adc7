import IPPcode24.Proofs.Steps

/-!
# What steps do to the frames

* `FrameUse`, `Instr.frameUse`   the six ways in which an instruction uses the frames
* `FrameUse.Moves fs u gs`       `gs` is what an instruction with the use `u` makes of `fs`
* `Machine.frames_step`          every step moves the frames in one of these ways, or not at all
* `Place`, `Frames.slot?`        a slot by its frame and its name, the outer local frames included;
                                 `slot_eq_ok_iff` and `read_eq_ok_iff` say that it is what is read
* `Frames.SetsOnly fs gs v s`    `gs` differs from `fs` at most in the slot of `v`, which is `s`
-/

namespace IPPcode24

/-! ## the use of frames -/

inductive FrameUse where
  /-- the frames are looked at, at most -/
  | looks
  /-- a declared variable is set to a value -/
  | sets (dst : Var)
  | declares (v : Var)
  | creates
  | pushes
  | pops
deriving DecidableEq, Repr

def Instr.frameUse : Instr → FrameUse
  | .createFrame => .creates
  | .pushFrame => .pushes
  | .popFrame => .pops
  | .defVar v => .declares v
  | .pops dst | .unary _ dst _ | .binary _ dst _ _ | .setChar dst _ _ | .type dst _
  | .read dst _ => .sets dst
  | .call _ | .ret | .pushs _ | .print _ _ | .label _ | .jump _ | .jumpIf _ _ _ _ | .exit _
  | .brk => .looks

inductive FrameUse.Moves (fs : Frames) : FrameUse → Frames → Prop where
  | looks : Moves fs .looks fs
  | sets (dst : Var) (x : Value) (f : Frame) (s : Slot) (hf : fs.frame? dst.frame = some f)
      (hs : f.get? dst.name = some s) :
    Moves fs (.sets dst) (fs.replace (f.put dst.name (.holds x)) dst.frame)
  | declares (v : Var) (f : Frame) (hf : fs.frame? v.frame = some f) (hn : f.get? v.name = none) :
    Moves fs (.declares v) (fs.replace (f.put v.name .uninitialized) v.frame)
  | creates : Moves fs .creates fs.create
  | pushes (f : Frame) (ht : fs.temporary = some f) :
    Moves fs .pushes { fs with locals := f :: fs.locals, temporary := none }
  | pops (f : Frame) (outer : List Frame) (hl : fs.locals = f :: outer) :
    Moves fs .pops { fs with locals := outer, temporary := some f }

namespace FrameUse.Moves

/-- a target that was checked is set, and was declared before -/
theorem of_assign (m : Memory) (dst : Var) (x : Value) (gs : Frames)
    (ht : m.checkTarget dst = .ok ()) (hg : m.frames.assign dst x = .ok gs) :
    Moves m.frames (.sets dst) gs := by
  rw [Memory.checkTarget, ofAccess_eq_ok, Frames.require_eq_ok] at ht
  obtain ⟨f, s, hf, hs⟩ := ht
  obtain ⟨g, hf', rfl⟩ := (Frames.assign_eq_ok _ _ _ _).mp hg
  cases hf.symm.trans hf'
  exact .sets dst x f s hf hs

variable {fs gs : Frames}

theorem eq_create (h : FrameUse.creates.Moves fs gs) : gs = fs.create := by
  cases h
  rfl

theorem push_eq (h : FrameUse.pushes.Moves fs gs) : fs.push = .ok gs := by
  cases h with
  | pushes f ht => exact (fs.push_eq_ok _).mpr ⟨f, ht, rfl⟩

theorem pop_eq (h : FrameUse.pops.Moves fs gs) : fs.pop = .ok gs := by
  cases h with
  | pops f outer hl => exact (fs.pop_eq_ok _).mpr ⟨f, outer, hl, rfl⟩

end FrameUse.Moves

theorem Instr.HasEffect.moves (t : Labels) (s : State) (order : Nat) (i : Instr) (e : Effect)
    (h : i.HasEffect t s order e) : i.frameUse.Moves s.memory.frames e.memory.frames := by
  cases h with
  | createFrame => exact .creates
  | pushFrame fs hp =>
    obtain ⟨f, ht, rfl⟩ := (Frames.push_eq_ok _ _).mp hp
    exact .pushes f ht
  | popFrame fs hp =>
    obtain ⟨f, outer, hl, rfl⟩ := (Frames.pop_eq_ok _ _).mp hp
    exact .pops f outer hl
  | defVar v fs hd =>
    obtain ⟨f, hf, hn, rfl⟩ := (Frames.declare_eq_ok _ _ _).mp hd
    exact .declares v f hf hn
  | pops dst x data fs ht hd hf => exact .of_assign _ dst _ fs ht hf
  | unary f dst a x y fs ht hx hy hf => exact .of_assign _ dst _ fs ht hf
  | binary f dst a b x y z fs ht hx hy hz hf => exact .of_assign _ dst _ fs ht hf
  | setChar dst a b x y z w fs ht hx hy hz hw hf => exact .of_assign _ dst _ fs ht hf
  | type dst a name fs ht hn hf => exact .of_assign _ dst _ fs ht hf
  | read dst ty fs ht hf => exact .of_assign _ dst _ fs ht hf
  | _ => exact .looks

/-- **Every step moves the frames as its instruction uses them, or leaves them.** -/
theorem Machine.frames_step (m : Machine) (s : State) :
    (m.executes s = true ∧ ∃ i, m.instr? s.pc = some i ∧
      i.frameUse.Moves s.memory.frames (m.step s).state.memory.frames) ∨
    m.executes s = false ∧ (m.step s).state.memory.frames = s.memory.frames := by
  cases hx : m.executes s with
  | true =>
    obtain ⟨r, e, hr, he, hstep⟩ := m.step_of_executes s hx
    refine .inl ⟨rfl, r.instr, m.instr?_of_get? _ r hr, ?_⟩
    rw [hstep]
    exact he.moves
  | false =>
    refine .inr ⟨rfl, ?_⟩
    rw [(m.step_of_not_executes s hx).1]

/-- what is known of the instruction is known of the move -/
theorem Machine.moves_of_executes (m : Machine) (s : State) (i : Instr)
    (hi : m.instr? s.pc = some i) (hx : m.executes s = true) :
    i.frameUse.Moves s.memory.frames (m.step s).state.memory.frames := by
  obtain ⟨_, j, hj, h⟩ | ⟨hn, _⟩ := m.frames_step s
  · cases hi.symm.trans hj
    exact h
  · rw [hx] at hn
    cases hn

/-! ## places -/

/-- where a frame is: `lf k` is the local frame `k` frames out from the innermost -/
inductive Place where
  | gf
  | lf (k : Nat)
  | tf
deriving DecidableEq, Repr

/-- the place of the frame that a name stands for -/
def FrameName.place : FrameName → Place
  | .gf => .gf
  | .lf => .lf 0
  | .tf => .tf

namespace Frames

def at? (fs : Frames) : Place → Option Frame
  | .gf => some fs.global
  | .lf k => fs.locals[k]?
  | .tf => fs.temporary

def slot? (fs : Frames) (p : Place) (name : String) : Option Slot :=
  (fs.at? p).bind fun f => f.get? name

variable (fs gs : Frames)

theorem at?_place (k : FrameName) : fs.at? k.place = fs.frame? k := by
  cases k with
  | gf => rfl
  | lf => exact List.head?_eq_getElem?.symm
  | tf => rfl

theorem slot?_of_frame? (v : Var) (f : Frame) (h : fs.frame? v.frame = some f) (name : String) :
    fs.slot? v.frame.place name = f.get? name := by
  rw [slot?, at?_place, h]
  rfl

theorem slot_eq_ok_iff (v : Var) (s : Slot) :
    fs.slot v = .ok s ↔ fs.slot? v.frame.place v.name = some s := by
  rw [slot_eq_ok, slot?, at?_place, Option.bind_eq_some_iff]

theorem read_eq_ok_iff (v : Var) (x : Value) :
    fs.read v = .ok x ↔ fs.slot? v.frame.place v.name = some (.holds x) := by
  rw [← slot_eq_ok_iff, read, bind_eq_ok]
  constructor
  · intro h
    obtain ⟨s, hs, h⟩ := h
    cases s with
    | holds y => cases h; exact hs
    | uninitialized => cases h
  · intro h
    exact ⟨_, h, rfl⟩

/-- a frame that is put under a name is found in one place only -/
theorem at?_replace_of_ne (f : Frame) (k : FrameName) (p : Place) (h : p ≠ k.place) :
    (fs.replace f k).at? p = fs.at? p := by
  cases k with
  | gf =>
    cases p with
    | gf => exact absurd rfl h
    | lf j => rfl
    | tf => rfl
  | lf =>
    cases hl : fs.locals with
    | nil => rw [replace, hl]
    | cons g outer =>
      cases p with
      | gf => simp [replace, at?, hl]
      | tf => simp [replace, at?, hl]
      | lf j =>
        cases j with
        | zero => exact absurd rfl h
        | succ j => simp [replace, at?, hl]
  | tf =>
    cases ht : fs.temporary with
    | none => rw [replace, ht]
    | some g =>
      cases p with
      | gf => simp [replace, at?, ht]
      | lf j => simp [replace, at?, ht]
      | tf => exact absurd rfl h

structure SetsOnly (v : Var) (s : Slot) : Prop where
  self : gs.slot? v.frame.place v.name = some s
  others : ∀ p name, (p, name) ≠ (v.frame.place, v.name) → gs.slot? p name = fs.slot? p name
  places : ∀ p, (gs.at? p).isSome = (fs.at? p).isSome

theorem setsOnly_replace (v : Var) (s : Slot) (f : Frame) (hf : fs.frame? v.frame = some f) :
    fs.SetsOnly (fs.replace (f.put v.name s) v.frame) v s := by
  have hself : (fs.replace (f.put v.name s) v.frame).at? v.frame.place
      = some (f.put v.name s) := by
    rw [at?_place]
    exact fs.frame?_replace_self _ f _ hf
  refine ⟨?_, fun p name hne => ?_, fun p => ?_⟩
  · rw [slot?, hself]
    exact f.get?_put_self _ _
  · by_cases hp : p = v.frame.place
    · subst hp
      rw [slot?, hself, fs.slot?_of_frame? v f hf]
      refine f.get?_put_of_ne _ _ _ ?_
      rintro rfl
      exact hne rfl
    · rw [slot?, slot?, fs.at?_replace_of_ne _ _ _ hp]
  · by_cases hp : p = v.frame.place
    · subst hp
      rw [hself, at?_place, hf]
      rfl
    · rw [fs.at?_replace_of_ne _ _ _ hp]

end Frames
end IPPcode24
