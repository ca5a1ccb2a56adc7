import IPPcode24.Proofs.FrameUse
import Mathlib.Data.Nat.Init

/-!
# Declarations

Setting a variable would declare it, were it not for the check of the target that comes first.  So
DEFVAR is the only instruction that declares, and no instruction takes a value away.

* `Opcode.writers`             the twenty opcodes that set their first operand to a value
* `FrameUse.opcode?`           the opcode, where there is only one with this use of the frames
* `Frames.Declared`, `Frames.Initialized`   a name in a place has a slot, and one with a value
* `FrameUse.Moves.declared_iff`, `initialized`   what a move keeps in every frame
* `FrameUse.Moves.global_grows`   what any move keeps in the global frame; `Machine.global_grows`
                               lifts it to runs

Main statement, `Machine.only_defVar_declares`: one step, and then all that come after it.
-/

namespace IPPcode24

/-! ## opcodes and their use of the frames -/

def Opcode.writers : List Opcode :=
  [.move, .pops, .add, .sub, .mul, .idiv, .lt, .gt, .eq, .and, .or, .not, .int2char, .stri2int,
   .read, .concat, .strlen, .getChar, .setChar, .type]

theorem Instr.sets_of_mem_writers (i : Instr) (h : i.opcode ∈ Opcode.writers) :
    ∃ dst, i.operands.head? = some (.var dst) ∧ i.frameUse = .sets dst := by
  cases i with
  | pops dst | unary f dst a | binary f dst a b | setChar dst a b | type dst a | read dst t =>
    exact ⟨dst, rfl, rfl⟩
  | print channel a => cases channel <;> simp [opcode, Opcode.writers] at h
  | jumpIf verdict name a b => cases verdict <;> simp [opcode, Opcode.writers] at h
  | _ => simp [opcode, Opcode.writers] at h

def FrameUse.opcode? : FrameUse → Option Opcode
  | .looks | .sets _ => none
  | .declares _ => some .defVar
  | .creates => some .createFrame
  | .pushes => some .pushFrame
  | .pops => some .popFrame

theorem Instr.opcode_of_frameUse (i : Instr) (op : Opcode) (h : i.frameUse.opcode? = some op) :
    i.opcode = op := by
  cases i <;> cases h <;> rfl

/-! ## what is declared, and what holds a value -/

namespace Frames

def Declared (fs : Frames) (p : Place) (name : String) : Prop := ∃ s, fs.slot? p name = some s

def Initialized (fs : Frames) (p : Place) (name : String) : Prop :=
  ∃ x, fs.slot? p name = some (.holds x)

/-- setting does not ask whether there is a variable -/
theorem assign_declares (fs : Frames) (v : Var) (x : Value) (f : Frame)
    (hf : fs.frame? v.frame = some f) :
    ∃ gs, fs.assign v x = .ok gs ∧ gs.Initialized v.frame.place v.name :=
  ⟨_, (fs.assign_eq_ok _ v x).mpr ⟨f, hf, rfl⟩, x, (fs.setsOnly_replace v _ f hf).self⟩

namespace SetsOnly

variable {fs gs : Frames} {v : Var} {s : Slot} {p : Place} {name : String}

theorem declared (h : fs.SetsOnly gs v s) (hd : fs.Declared p name) : gs.Declared p name := by
  by_cases hp : (p, name) = (v.frame.place, v.name)
  · cases hp
    exact ⟨s, h.self⟩
  · rwa [Declared, h.others p name hp]

/-- the names are the same if that of the variable was among them -/
theorem declared_iff (h : fs.SetsOnly gs v s) (hv : fs.Declared v.frame.place v.name) :
    gs.Declared p name ↔ fs.Declared p name := by
  refine ⟨fun hd => ?_, h.declared⟩
  by_cases hp : (p, name) = (v.frame.place, v.name)
  · cases hp
    exact hv
  · rwa [Declared, ← h.others p name hp]

theorem initialized_of_holds {x : Value} (h : fs.SetsOnly gs v (.holds x))
    (hi : fs.Initialized p name) : gs.Initialized p name := by
  by_cases hp : (p, name) = (v.frame.place, v.name)
  · cases hp
    exact ⟨x, h.self⟩
  · rwa [Initialized, h.others p name hp]

/-- a variable that was not there had no value to lose -/
theorem initialized_of_new (h : fs.SetsOnly gs v s) (hn : fs.slot? v.frame.place v.name = none)
    (hi : fs.Initialized p name) : gs.Initialized p name := by
  have hp : (p, name) ≠ (v.frame.place, v.name) := by
    intro hp
    cases hp
    obtain ⟨x, hx⟩ := hi
    cases hn.symm.trans hx
  rwa [Initialized, h.others p name hp]

end SetsOnly
end Frames

/-! ## one move -/

namespace FrameUse.Moves

variable {fs gs : Frames} {u : FrameUse}

theorem setsOnly_of_sets {dst : Var} (h : (FrameUse.sets dst).Moves fs gs) :
    fs.Declared dst.frame.place dst.name ∧ ∃ x, fs.SetsOnly gs dst (.holds x) := by
  cases h with
  | sets dst x f s hf hs =>
    refine ⟨⟨s, ?_⟩, x, fs.setsOnly_replace dst _ f hf⟩
    rw [fs.slot?_of_frame? dst f hf, hs]

theorem setsOnly_of_declares {v : Var} (h : (FrameUse.declares v).Moves fs gs) :
    fs.slot? v.frame.place v.name = none ∧ fs.SetsOnly gs v .uninitialized := by
  cases h with
  | declares v f hf hn =>
    refine ⟨?_, fs.setsOnly_replace v _ f hf⟩
    rw [fs.slot?_of_frame? v f hf, hn]

theorem declared_iff (h : u.Moves fs gs)
    (hu : ∀ op, u.opcode? = some op → op ∉ [.defVar, .createFrame, .pushFrame, .popFrame])
    (p : Place) (name : String) :
    (gs.at? p).isSome = (fs.at? p).isSome ∧ (gs.Declared p name ↔ fs.Declared p name) := by
  cases u with
  | looks =>
    cases h
    exact ⟨rfl, Iff.rfl⟩
  | sets dst =>
    obtain ⟨hd, x, hset⟩ := h.setsOnly_of_sets
    exact ⟨hset.places p, hset.declared_iff hd⟩
  | _ => exact absurd (by decide) (hu _ rfl)

theorem initialized (h : u.Moves fs gs)
    (hu : ∀ op, u.opcode? = some op → op ∉ [.createFrame, .pushFrame, .popFrame])
    (p : Place) (name : String) (hi : fs.Initialized p name) : gs.Initialized p name := by
  cases u with
  | looks =>
    cases h
    exact hi
  | sets dst =>
    obtain ⟨_, x, hset⟩ := h.setsOnly_of_sets
    exact hset.initialized_of_holds hi
  | declares v =>
    obtain ⟨hn, hset⟩ := h.setsOnly_of_declares
    exact hset.initialized_of_new hn hi
  | _ => exact absurd (by decide) (hu _ rfl)

/-- whatever the move, the global frame stays, and grows at most -/
theorem global_grows (h : u.Moves fs gs) (name : String) :
    (fs.Declared .gf name → gs.Declared .gf name) ∧
      (fs.Initialized .gf name → gs.Initialized .gf name) := by
  cases u with
  | looks | creates | pushes | pops =>
    cases h
    exact ⟨id, id⟩
  | sets dst =>
    obtain ⟨_, x, hset⟩ := h.setsOnly_of_sets
    exact ⟨hset.declared, hset.initialized_of_holds⟩
  | declares v =>
    obtain ⟨hn, hset⟩ := h.setsOnly_of_declares
    exact ⟨hset.declared, hset.initialized_of_new hn⟩

end FrameUse.Moves

/-! ## steps and runs -/

namespace Machine

variable (m : Machine) (s : State)

theorem global_grows_step (name : String) :
    (s.memory.frames.Declared .gf name → (m.step s).state.memory.frames.Declared .gf name) ∧
      (s.memory.frames.Initialized .gf name →
        (m.step s).state.memory.frames.Initialized .gf name) := by
  obtain ⟨_, i, _, h⟩ | ⟨_, h⟩ := m.frames_step s
  · exact h.global_grows name
  · rw [h]
    exact ⟨id, id⟩

/-- the global frame grows along a run -/
theorem global_grows (a b : Nat) (hab : a ≤ b) (name : String) :
    ((m.after a s).memory.frames.Declared .gf name →
      (m.after b s).memory.frames.Declared .gf name) ∧
    ((m.after a s).memory.frames.Initialized .gf name →
      (m.after b s).memory.frames.Initialized .gf name) := by
  induction b, hab using Nat.le_induction with
  | base => exact ⟨id, id⟩
  | succ b hab ih =>
    obtain ⟨hd, hi⟩ := m.global_grows_step (m.after b s) name
    exact ⟨hd ∘ ih.1, hi ∘ ih.2⟩

/-- what is declared is not reported as undeclared -/
theorem not_undeclared (v : Var) (hd : s.memory.frames.Declared v.frame.place v.name) (f : Fault)
    (hf : (m.step s).fault = some f) : f.cause ≠ .access (.undeclared v) := by
  intro hc
  have he := m.explained_of_fault s f hf
  rw [hc] at he
  rcases he with he | ⟨g, hg, hn⟩
  · cases he
  · obtain ⟨slot, hs⟩ := hd
    rw [s.memory.frames.slot?_of_frame? v g hg, hn] at hs
    cases hs

/-- **Only DEFVAR declares variables, and a value is never lost.**  Setting a variable would create
it; yet a step of another opcode than DEFVAR and those on whole frames leaves the declared names of
every frame as they are.  DEFVAR adds one name that was not there, without a value, and changes no
other slot; an opcode that writes finds its target declared, sets it to a value, and changes no
other slot.  No slot with a value becomes one without: frames are only created, pushed and popped
whole, and a step that executes nothing leaves them.  So the global frame only grows along a run,
and a variable of it that has been declared is never reported as undeclared again. -/
theorem only_defVar_declares (m : Machine) (s : State) :
    let fs := s.memory.frames
    let gs := (m.step s).state.memory.frames
    (∀ v x f, fs.frame? v.frame = some f →
      ∃ hs, fs.assign v x = .ok hs ∧ hs.Initialized v.frame.place v.name) ∧
    ((∀ i, m.instr? s.pc = some i → i.opcode ∉ [.defVar, .createFrame, .pushFrame, .popFrame]) →
      ∀ p name, (gs.at? p).isSome = (fs.at? p).isSome ∧
        (gs.Declared p name ↔ fs.Declared p name)) ∧
    (∀ v, m.instr? s.pc = some (.defVar v) → m.executes s = true →
      fs.slot? v.frame.place v.name = none ∧ fs.SetsOnly gs v .uninitialized) ∧
    (∀ i, m.instr? s.pc = some i → i.opcode ∈ Opcode.writers → m.executes s = true →
      ∃ dst x, i.operands.head? = some (.var dst) ∧ fs.Declared dst.frame.place dst.name ∧
        fs.SetsOnly gs dst (.holds x)) ∧
    ((∀ i, m.instr? s.pc = some i → i.opcode ∉ [.createFrame, .pushFrame, .popFrame]) →
      ∀ p name, fs.Initialized p name → gs.Initialized p name) ∧
    (m.executes s = true →
      (m.instr? s.pc = some .createFrame → gs = fs.create) ∧
      (m.instr? s.pc = some .pushFrame → fs.push = .ok gs) ∧
      (m.instr? s.pc = some .popFrame → fs.pop = .ok gs)) ∧
    (m.executes s = false → gs = fs) ∧
    (∀ a b name, a ≤ b →
      ((m.after a s).memory.frames.Declared .gf name →
        (m.after b s).memory.frames.Declared .gf name ∧
        ∀ f, (m.step (m.after b s)).fault = some f →
          f.cause ≠ .access (.undeclared ⟨.gf, name⟩)) ∧
      ((m.after a s).memory.frames.Initialized .gf name →
        (m.after b s).memory.frames.Initialized .gf name)) := by
  intro fs gs
  have hmoves : ∀ i, m.instr? s.pc = some i → m.executes s = true → i.frameUse.Moves fs gs :=
    m.moves_of_executes s
  refine ⟨fs.assign_declares, fun hop p name => ?_, fun v hi hx => ?_, fun i hi hw hx => ?_,
    fun hop p name hinit => ?_, fun hx => ⟨fun hi => ?_, fun hi => ?_, fun hi => ?_⟩, fun hx => ?_,
    fun a b name hab => ?_⟩
  · obtain ⟨_, i, hi, h⟩ | ⟨_, h⟩ := m.frames_step s
    · exact h.declared_iff (fun op hu => i.opcode_of_frameUse op hu ▸ hop i hi) p name
    · rw [show gs = fs from h]
      exact ⟨rfl, Iff.rfl⟩
  · exact (hmoves _ hi hx).setsOnly_of_declares
  · obtain ⟨dst, hhead, hu⟩ := i.sets_of_mem_writers hw
    have h := hmoves i hi hx
    rw [hu] at h
    obtain ⟨hd, x, hset⟩ := h.setsOnly_of_sets
    exact ⟨dst, x, hhead, hd, hset⟩
  · obtain ⟨_, i, hi, h⟩ | ⟨_, h⟩ := m.frames_step s
    · exact h.initialized (fun op hu => i.opcode_of_frameUse op hu ▸ hop i hi) p name hinit
    · rwa [show gs = fs from h]
  · exact (hmoves _ hi hx).eq_create
  · exact (hmoves _ hi hx).push_eq
  · exact (hmoves _ hi hx).pop_eq
  · exact congrArg Memory.frames (m.step_of_not_executes s hx).1
  · obtain ⟨hd, hi⟩ := m.global_grows s a b hab name
    exact ⟨fun h => ⟨hd h, fun f hf => m.not_undeclared (m.after b s) ⟨.gf, name⟩ (hd h) f hf⟩, hi⟩

/-- a variable with a value from the data stack, and a use of one that is not declared -/
def declaringMachine : Machine :=
  ⟨Program.ofInstrs [.defVar ⟨.gf, "x"⟩, .pushs (.literal (.int 5)), .pops ⟨.gf, "x"⟩,
    .unary .move ⟨.gf, "y"⟩ (.var ⟨.gf, "x"⟩)], ⟨[]⟩, rfl⟩

theorem only_defVar_declares_pops :
    let s := declaringMachine.after 2 (State.start [] (Sink.new none) (Sink.new none))
    s.memory.frames.Declared .gf "x" ∧
      (∃ dst x, (Instr.pops ⟨.gf, "x"⟩).operands.head? = some (.var dst) ∧
        s.memory.frames.SetsOnly (declaringMachine.after 1 s).memory.frames dst (.holds x)) ∧
      (declaringMachine.step (declaringMachine.after 1 s)).fault
        = some ⟨3, .access (.undeclared ⟨.gf, "y"⟩)⟩ ∧
      (declaringMachine.after 9 s).memory.frames.Declared .gf "x" := by
  intro s
  have hdeclared : s.memory.frames.Declared .gf "x" := ⟨.uninitialized, by decide⟩
  obtain ⟨_, _, _, hwrite, _, _, _, hrun⟩ := declaringMachine.only_defVar_declares s
  obtain ⟨dst, x, hhead, _, hset⟩ :=
    hwrite (.pops ⟨.gf, "x"⟩) (by decide) (by decide) (by decide)
  exact ⟨hdeclared, ⟨dst, x, hhead, hset⟩, by decide,
    ((hrun 0 9 "x" (by decide)).1 hdeclared).1⟩

end Machine
end IPPcode24
