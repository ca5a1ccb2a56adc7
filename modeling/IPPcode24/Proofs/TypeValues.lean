import IPPcode24.Proofs.Declarations
import IPPcode24.Proofs.Image
import IPPcode24.Proofs.InputLines
import IPPcode24.Proofs.Labels

/-!
# Programs from source have no types among their values

A value may be the name of a type, but no literal of a source text denotes one, and no instruction
makes one of other values.  So a program that comes from a source text never holds one.

* `Memory.TypeFree m`            no slot of a frame and nothing on the data stack is a type
* `Instr.TypeFree i`             no literal of the instruction is one
* `Binary.ty_apply`, `Input.ty_read`, ...   nothing that is computed or read is one
* `FrameUse.Moves.slot_before`   a value is where it was, or in a frame that was moved, unless it is
                                 set
* `Instr.HasEffect.typeFree`     **an instruction without types keeps the memory free of them**
* `Machine.typeFree_step`, `typeFree_after`   and so do steps and runs

Main statement, `Machine.no_type_values`.
-/

namespace IPPcode24

/-! ## results -/

theorem Unary.ty_apply (f : Unary) (x y : Value) (hx : x.ty ≠ .type) (h : f.apply x = .ok y) :
    y.ty ≠ .type := by
  unfold Unary.apply at h
  split at h
  · -- MOVE hands on what it gets
    cases h
    exact hx
  · cases h
    exact fun ht => nomatch ht
  · split at h
    · cases h
      exact fun ht => nomatch ht
    · cases h
  · cases h
    exact fun ht => nomatch ht
  · cases h

theorem Binary.ty_apply (f : Binary) (x y z : Value) (h : f.apply x y = .ok z) :
    z.ty ≠ .type := by
  unfold Binary.apply at h
  split at h
  case h_4 =>
    split at h
    · cases h
    · cases h
      exact fun ht => nomatch ht
  case h_5 | h_6 | h_7 | h_10 | h_12 =>
    obtain ⟨r, _, hz⟩ := (map_eq_ok _ _ _).mp h
    cases hz
    exact fun ht => nomatch ht
  case h_13 => cases h
  all_goals
    cases h
    exact fun ht => nomatch ht

theorem ty_setChar (x y z w : Value) (h : setChar x y z = .ok w) : w.ty ≠ .type := by
  obtain ⟨s, i, r, k, c, _, _, _, _, _, _, hw⟩ := setChar_eq_ok x y z w h
  rw [hw]
  exact fun ht => nomatch ht

theorem Input.ty_interpret (t : Ty) (s : List Char) : (interpret t s).ty ≠ .type := by
  cases t with
  | int =>
    rw [interpret]
    split
    · exact fun ht => nomatch ht
    · exact fun ht => nomatch ht
  | _ => exact fun ht => nomatch ht

theorem Input.ty_read (t : Ty) (b : Bytes) : (read t b).1.ty ≠ .type := by
  have hvalue := value_behind t b 0
  rw [behind_zero] at hvalue
  rw [hvalue]
  cases lineAt b 0 with
  | some s => exact ty_interpret t s
  | none => exact fun ht => nomatch ht

/-! ## memories without types -/

def Frames.TypeFree (fs : Frames) : Prop :=
  ∀ p name x, fs.slot? p name = some (.holds x) → x.ty ≠ .type

structure Memory.TypeFree (m : Memory) : Prop where
  frames : m.frames.TypeFree
  data : ∀ x ∈ m.data, x.ty ≠ .type

def Instr.TypeFree (i : Instr) : Prop := ∀ x, Operand.literal x ∈ i.operands → x.ty ≠ .type

/-- an instruction that is written in a source text is free of types -/
theorem Instr.IsWritable.typeFree {i : Instr} (h : i.IsWritable) : i.TypeFree := by
  intro x hx ht
  have hw : x.IsWritable := h _ hx
  cases x with
  | type t => exact hw
  | _ => cases ht

theorem FrameUse.Moves.slot_before {fs gs : Frames} {u : FrameUse} (h : u.Moves fs gs)
    (hu : ∀ dst, u ≠ .sets dst) (p : Place) (name : String) (x : Value)
    (hx : gs.slot? p name = some (.holds x)) : ∃ q, fs.slot? q name = some (.holds x) := by
  cases u with
  | looks =>
    cases h
    exact ⟨p, hx⟩
  | sets dst => exact absurd rfl (hu dst)
  | declares v =>
    obtain ⟨_, hset⟩ := h.setsOnly_of_declares
    by_cases hp : (p, name) = (v.frame.place, v.name)
    · cases hp
      cases hset.self.symm.trans hx
    · rw [hset.others p name hp] at hx
      exact ⟨p, hx⟩
  | creates =>
    cases h
    cases p with
    | gf => exact ⟨.gf, hx⟩
    | lf k => exact ⟨.lf k, hx⟩
    | tf => cases hx
  | pushes =>
    cases h with
    | pushes f ht =>
      cases p with
      | gf => exact ⟨.gf, hx⟩
      | lf k =>
        cases k with
        | zero =>
          refine ⟨.tf, ?_⟩
          rw [Frames.slot?, Frames.at?, ht]
          exact hx
        | succ k => exact ⟨.lf k, hx⟩
      | tf => cases hx
  | pops =>
    cases h with
    | pops f outer hl =>
      have hlocal : ∀ k, fs.at? (.lf k) = (f :: outer)[k]? := fun k => by rw [Frames.at?, hl]
      cases p with
      | gf => exact ⟨.gf, hx⟩
      | lf k =>
        refine ⟨.lf (k + 1), ?_⟩
        rw [Frames.slot?, hlocal]
        exact hx
      | tf =>
        refine ⟨.lf 0, ?_⟩
        rw [Frames.slot?, hlocal]
        exact hx

namespace Frames.TypeFree

variable {fs gs : Frames}

theorem of_moves {u : FrameUse} (h : fs.TypeFree) (hm : u.Moves fs gs)
    (hu : ∀ dst, u ≠ .sets dst) : gs.TypeFree := by
  intro p name x hx
  obtain ⟨q, hq⟩ := hm.slot_before hu p name x hx
  exact h q name x hq

theorem assign {dst : Var} {x : Value} (h : fs.TypeFree) (hx : x.ty ≠ .type)
    (hg : fs.assign dst x = .ok gs) : gs.TypeFree := by
  obtain ⟨f, hf, hgs⟩ := (fs.assign_eq_ok gs dst x).mp hg
  have hset : fs.SetsOnly gs dst (.holds x) := by
    rw [hgs]
    exact fs.setsOnly_replace dst _ f hf
  intro p name y hy
  by_cases hp : (p, name) = (dst.frame.place, dst.name)
  · cases hp
    cases hset.self.symm.trans hy
    exact hx
  · rw [hset.others p name hp] at hy
    exact h p name y hy

end Frames.TypeFree

namespace Memory.TypeFree

variable {m : Memory} (h : m.TypeFree)
include h

theorem read (v : Var) (x : Value) (hx : m.frames.read v = .ok x) : x.ty ≠ .type :=
  h.frames _ _ x ((m.frames.read_eq_ok_iff v x).mp hx)

/-- an operand of an instruction without types has no type for its value -/
theorem value {i : Instr} (hi : i.TypeFree) (a : Symbol) (ha : a.operand ∈ i.operands) (x : Value)
    (hx : m.value a = .ok x) : x.ty ≠ .type := by
  cases a with
  | literal y =>
    rw [← Except.ok.inj hx]
    exact hi y ha
  | var v => exact h.read v x ((ofAccess_eq_ok _ _).mp hx)

theorem typeName {i : Instr} (hi : i.TypeFree) (a : Symbol) (ha : a.operand ∈ i.operands)
    (name : String) (hn : m.typeName a = .ok name) :
    name ∈ ["int", "bool", "string", "nil", ""] := by
  have hname : ∀ x : Value, x.ty ≠ .type → x.ty.name ∈ ["int", "bool", "string", "nil", ""] := by
    intro x hx
    cases ht : x.ty with
    | type => exact absurd ht hx
    | _ => decide
  cases a with
  | literal y =>
    rw [← Except.ok.inj hn]
    exact hname y (hi y ha)
  | var v =>
    obtain ⟨s, hs, hn⟩ := (bind_eq_ok _ _ _).mp hn
    rw [ofAccess_eq_ok, m.frames.slot_eq_ok_iff] at hs
    cases s with
    | uninitialized => cases hn; decide
    | holds x => cases hn; exact hname x (h.frames _ _ x hs)

end Memory.TypeFree

/-! ## instructions -/

/-- **An instruction without types keeps the memory free of them.** -/
theorem Instr.HasEffect.typeFree (t : Labels) (s : State) (order : Nat) (i : Instr) (e : Effect)
    (h : i.HasEffect t s order e) (hi : i.TypeFree) (hm : s.memory.TypeFree) :
    e.memory.TypeFree := by
  have hmoves := h.moves
  cases h with
  | createFrame | pushFrame fs hf | popFrame fs hf | defVar v fs hf =>
    exact ⟨hm.frames.of_moves hmoves fun _ h => (nomatch h), hm.data⟩
  | pushs a x hx =>
    exact ⟨hm.frames, List.forall_mem_cons.mpr ⟨hm.value hi a (.head _) x hx, hm.data⟩⟩
  | pops dst x data fs ht hd hf =>
    have hdata : ∀ y ∈ x :: data, y.ty ≠ .type := fun y hy => hm.data y (hd ▸ hy)
    obtain ⟨hx, hdata⟩ := List.forall_mem_cons.mp hdata
    exact ⟨hm.frames.assign hx hf, hdata⟩
  | unary f dst a x y fs ht hx hy hf =>
    have hxt := hm.value hi a (.tail _ (.head _)) x hx
    exact ⟨hm.frames.assign (f.ty_apply x y hxt hy) hf, hm.data⟩
  | binary f dst a b x y z fs ht hx hy hz hf =>
    exact ⟨hm.frames.assign (f.ty_apply x y z hz) hf, hm.data⟩
  | setChar dst a b x y z w fs ht hx hy hz hw hf =>
    exact ⟨hm.frames.assign (ty_setChar x y z w hw) hf, hm.data⟩
  | type dst a name fs ht hn hf =>
    have hname : (Value.string name).ty ≠ .type := fun h => nomatch h
    exact ⟨hm.frames.assign hname hf, hm.data⟩
  | read dst ty fs ht hf => exact ⟨hm.frames.assign (Input.ty_read ty _) hf, hm.data⟩
  | _ => exact ⟨hm.frames, hm.data⟩

/-! ## steps and runs -/

namespace Machine

section
variable (m : Machine) (hp : ∀ i ∈ m.program.instrs, i.TypeFree)
include hp

theorem typeFree_of_instr? (k : Nat) (i : Instr) (h : m.instr? k = some i) : i.TypeFree :=
  hp i (m.mem_instrs_of_instr? k i h)

theorem typeFree_step (s : State) (h : s.memory.TypeFree) : (m.step s).state.memory.TypeFree := by
  cases hx : m.executes s with
  | true =>
    obtain ⟨r, e, hr, he, hstep⟩ := m.step_of_executes s hx
    rw [hstep]
    exact he.typeFree _ _ _ _ _ (m.typeFree_of_instr? hp s.pc _ (m.instr?_of_get? _ r hr)) h
  | false =>
    rw [(m.step_of_not_executes s hx).1]
    exact h

theorem typeFree_after (s : State) (h : s.memory.TypeFree) (n : Nat) :
    (m.after n s).memory.TypeFree :=
  m.after_invariant (fun s => s.memory.TypeFree) (m.typeFree_step hp) n s h

end

/-- there is nothing yet where a run starts -/
theorem typeFree_start (input : Bytes) (stdout stderr : Sink) :
    (State.start input stdout stderr).memory.TypeFree where
  frames p name x hx := by cases p <;> cases hx
  data x hx := nomatch hx

/-- **Programs from source have no types among their values.**  For the program of a source text,
after any number of steps of a run no slot of any frame and nothing on the data stack is the name of
a type.  So TYPE stores one of four names or the empty string, and neither EQ nor a conditional jump
compares names of types. -/
theorem no_type_values (m : Machine) (text : List Char) (h : assemble text = .ok m.program)
    (input : Bytes) (stdout stderr : Option Nat) (n : Nat) :
    let s := m.after n (State.start input (Sink.new stdout) (Sink.new stderr))
    (∀ p name x, s.memory.frames.slot? p name = some (.holds x) → x.ty ≠ .type) ∧
    (∀ x ∈ s.memory.data, x.ty ≠ .type) ∧
    (∀ dst a, m.instr? s.pc = some (.type dst a) → m.executes s = true →
      ∃ name ∈ ["int", "bool", "string", "nil", ""],
        (m.step s).state.memory.frames.read dst = .ok (.string name) ∧
        s.memory.frames.assign dst (.string name) = .ok (m.step s).state.memory.frames) ∧
    (∀ i, m.instr? s.pc = some i → i.opcode ∈ [.eq, .jumpIfEq, .jumpIfNeq] →
      ∃ o a b, i.operands = [o, a.operand, b.operand] ∧
        ∀ x, s.memory.value a = .ok x ∨ s.memory.value b = .ok x → x.ty ≠ .type) := by
  intro s
  have hp : ∀ i ∈ m.program.instrs, i.TypeFree := fun i hi =>
    (isWritable_of_assemble text m.program h i hi).typeFree
  have hs : s.memory.TypeFree := m.typeFree_after hp _ (typeFree_start _ _ _) n
  refine ⟨hs.frames, hs.data, fun dst a hi hx => ?_, fun i hi hop => ?_⟩
  · have hfree := m.typeFree_of_instr? hp s.pc _ hi
    obtain ⟨r, e, hr, he, hstep⟩ := m.step_of_executes s hx
    rw [m.instr?_of_get? s.pc r hr] at hi
    rw [Option.some.inj hi] at he
    rw [hstep]
    cases he with
    | type _ _ name fs ht hn hf =>
      exact ⟨name, hs.typeName hfree a (.tail _ (.head _)) name hn,
        s.memory.frames.read_of_assign fs dst _ hf, hf⟩
  · have hfree := m.typeFree_of_instr? hp s.pc i hi
    have hpair : ∃ o, ∃ a b : Symbol, i.operands = [o, a.operand, b.operand] := by
      cases i with
      | binary f dst a b => exact ⟨_, a, b, rfl⟩
      | jumpIf verdict name a b => exact ⟨_, a, b, rfl⟩
      | setChar dst a b => exact ⟨_, a, b, rfl⟩
      | unary f dst a => cases f <;> simp [Instr.opcode, Unary.opcode] at hop
      | print channel a => cases channel <;> simp [Instr.opcode] at hop
      | _ => simp [Instr.opcode] at hop
    obtain ⟨o, a, b, hops⟩ := hpair
    refine ⟨o, a, b, hops, fun x hx => ?_⟩
    rcases hx with hx | hx
    · exact hs.value hfree a (by simp [hops]) x hx
    · exact hs.value hfree b (by simp [hops]) x hx

/-- TYPE of a variable that holds nothing yet, and a comparison with nil -/
theorem no_type_values_empty :
    let m : Machine := ⟨Program.ofInstrs [.defVar ⟨.gf, "t"⟩,
      .type ⟨.gf, "t"⟩ (.var ⟨.gf, "t"⟩), .binary .eq ⟨.gf, "t"⟩ (.var ⟨.gf, "t"⟩) (.literal .nil)],
      ⟨[]⟩, rfl⟩
    let text := ".IPPcode24\nDEFVAR GF@t\nTYPE GF@t GF@t\nEQ GF@t GF@t nil@nil".toList
    let s := m.after 1 (State.start [] (Sink.new none) (Sink.new none))
    assemble text = .ok m.program ∧ m.executes s = true ∧
      ∃ name ∈ ["int", "bool", "string", "nil", ""],
        (m.step s).state.memory.frames.read ⟨.gf, "t"⟩ = .ok (.string name) := by
  intro m text s
  have htext : assemble text = .ok m.program := by decide +kernel
  have hx : m.executes s = true := by decide
  obtain ⟨_, _, htype, _⟩ := no_type_values m text htext [] none none 1
  obtain ⟨name, hname, hread, _⟩ := htype ⟨.gf, "t"⟩ (.var ⟨.gf, "t"⟩) (by decide) hx
  exact ⟨htext, hx, name, hname, hread⟩

end Machine
end IPPcode24
