import Mathlib.Data.List.Infix
import IPPcode24.Proofs.Evaluation
import IPPcode24.Proofs.Runs

/-!
# Values through the data stack

Values that are pushed one after the other and then popped into variables are those that the symbols
had at the beginning, in reverse, whether or not the variables are among the symbols.

* `Frames.assignAll fs ps`       variables are set in order, and `slot?_of_assignAll` what they hold
* `Machine.Has m i is`           the program has the instructions `is` from the index `i` on
* `State.passed s n mem`         `n` instructions were executed in a row, which left the memory `mem`
* `Machine.run_pushs`, `Machine.run_pops`   **the two phases**

Main statement, `Machine.transfer_reverses`.
-/

namespace IPPcode24

/-! ## variables that are set in order -/

namespace Frames

def assignAll (fs : Frames) (ps : List (Var × Value)) : Except AccessError Frames :=
  ps.foldlM (fun fs p => fs.assign p.1 p.2) fs

/-- the value that a variable is set to last -/
def lastSet? (ps : List (Var × Value)) (p : Place) (name : String) : Option Value :=
  ps.reverse.findSome? fun q => if (p, name) = (q.1.frame.place, q.1.name) then some q.2 else none

variable (fs gs : Frames) (v : Var) (x : Value) (ps : List (Var × Value))

theorem assignAll_cons (h : fs.assign v x = .ok gs) :
    fs.assignAll ((v, x) :: ps) = gs.assignAll ps := by
  rw [assignAll, List.foldlM_cons, h]
  rfl

/-- a variable holds what it was set to last, or what it held before -/
theorem slot?_of_assignAll (h : fs.assignAll ps = .ok gs) (p : Place) (name : String) :
    gs.slot? p name = ((lastSet? ps p name).map .holds).or (fs.slot? p name) := by
  induction ps generalizing fs with
  | nil =>
    cases h
    rfl
  | cons q ps ih =>
    obtain ⟨v, x⟩ := q
    rw [assignAll, List.foldlM_cons] at h
    obtain ⟨fs', hfs, h⟩ := (bind_eq_ok _ _ _).mp h
    have hset := fs.setsOnly_of_assign fs' v x hfs
    rw [ih fs' h, lastSet?, lastSet?, List.reverse_cons, List.findSome?_append, Option.map_or,
      Option.or_assoc]
    congr 1
    by_cases hp : (p, name) = (v.frame.place, v.name)
    · cases hp
      simp only [List.findSome?_cons, if_pos, Option.map_some, Option.some_or, hset.self]
    · simp only [List.findSome?_cons, if_neg hp, List.findSome?_nil, Option.map_none,
        Option.none_or, hset.others p name hp]

end Frames

/-! ## the three instructions -/

namespace Instr

variable (t : Labels) (s : State) (order : Nat) (v : Var) (a : Symbol) (x : Value)

theorem effect_pushs (hx : s.memory.value a = .ok x) :
    (pushs a).effect t s order = .ok (.ahead (s.memory.pushData x)) := by
  rw [effect, hx]
  rfl

variable (fs : Frames) (hv : s.memory.frames.Declared v.frame.place v.name)
  (hfs : s.memory.frames.assign v x = .ok fs)

include hv hfs

theorem effect_pops (data : List Value) (hdata : s.memory.data = x :: data) :
    (pops v).effect t s order = .ok (.ahead { s.memory with frames := fs, data := data }) := by
  have hpop := (s.memory.popData_eq_ok _ x).mpr ⟨data, hdata, rfl⟩
  have hset := (Memory.setVar_eq_ok { s.memory with data := data } _ v x).mpr ⟨fs, hfs, rfl⟩
  simp only [effect, s.memory.checkTarget_of_declared v hv, hpop, hset, bind, Except.bind]

theorem effect_move (hx : s.memory.value a = .ok x) :
    (unary .move v a).effect t s order = .ok (.ahead { s.memory with frames := fs }) := by
  have hset := (Memory.setVar_eq_ok s.memory _ v x).mpr ⟨fs, hfs, rfl⟩
  simp only [effect, s.memory.checkTarget_of_declared v hv, hx, Unary.apply, hset, bind, Except.bind]

end Instr

/-! ## instructions in a row -/

/-- `n` instructions were executed in a row, which left the memory `mem` and wrote nothing -/
def State.passed (s : State) (n : Nat) (mem : Memory) : State :=
  { s with memory := mem, pc := s.pc + n, executed := s.executed + n }

theorem State.passed_passed (s : State) (k n : Nat) (mem mem' : Memory) :
    (s.passed k mem).passed n mem' = s.passed (k + n) mem' := by
  simp only [State.passed, Nat.add_assoc]

namespace Machine

/-- the program has these instructions in a row from the index `i` on -/
def Has (m : Machine) (i : Nat) (is : List Instr) : Prop := is <+: m.program.instrs.drop i

variable (m : Machine)

theorem Has.head (i : Nat) (x : Instr) (is : List Instr) (h : m.Has i (x :: is)) :
    m.instr? i = some x := by
  obtain ⟨rest, hrest⟩ := h
  rw [m.instr?_eq_getElem?, ← Nat.add_zero i, ← List.getElem?_drop, ← hrest]
  rfl

theorem Has.right (i : Nat) (is js : List Instr) (h : m.Has i (is ++ js)) :
    m.Has (i + is.length) js := by
  have hrest := List.IsPrefix.drop h is.length
  rwa [List.drop_left, List.drop_drop] at hrest

theorem Has.left (i : Nat) (is js : List Instr) (h : m.Has i (is ++ js)) : m.Has i is :=
  (List.prefix_append is js).trans h

/-- an instruction that hands on to the next one in a run -/
theorem run_succ_of_ahead (n : Nat) (s : State) (i : Instr) (mem : Memory)
    (hs : s.status = .running) (hi : m.instr? s.pc = some i)
    (he : ∀ order, i.effect m.labels s order = .ok (.ahead mem)) :
    m.run (n + 1) s = m.run n (s.passed 1 mem) := by
  obtain ⟨r, hr, rfl⟩ := Option.map_eq_some_iff.mp hi
  refine m.run_succ_of_running n s _ ?_ hs
  rw [m.step_of_get? s r hs hr, he, State.passed, hs]
  rfl

/-! ## the two phases -/

theorem run_pushs (as : List Symbol) (xs : List Value) (s : State) (hs : s.status = .running)
    (hcode : m.Has s.pc (as.map .pushs))
    (hvals : List.Forall₂ (fun a x => s.memory.value a = .ok x) as xs) :
    m.run as.length s
      = (none, s.passed as.length { s.memory with data := xs.reverse ++ s.memory.data }) := by
  induction as generalizing xs s with
  | nil =>
    cases hvals
    rfl
  | cons a as ih =>
    cases hvals with
    | @cons _ x _ xs hx hvals =>
      have hrun := m.run_succ_of_ahead as.length s _ (s.memory.pushData x) hs (hcode.head m)
        fun order => Instr.effect_pushs m.labels s order a x hx
      have hsame : ∀ b, (s.memory.pushData x).value b = s.memory.value b := by
        intro b
        cases b <;> rfl
      have hrest := ih xs (s.passed 1 (s.memory.pushData x)) hs (hcode.right m s.pc [_] _)
        (hvals.imp fun b y hy => (hsame b).trans hy)
      rw [List.length_cons, hrun, hrest, State.passed_passed, Nat.add_comm 1, List.reverse_cons,
        List.append_assoc]
      rfl

theorem run_pops (vs : List Var) (ys rest : List Value) (s : State) (hs : s.status = .running)
    (hcode : m.Has s.pc (vs.map .pops)) (hlength : vs.length = ys.length)
    (hvars : ∀ v ∈ vs, s.memory.frames.Declared v.frame.place v.name)
    (hdata : s.memory.data = ys ++ rest) :
    ∃ fs, s.memory.frames.assignAll (vs.zip ys) = .ok fs ∧
      m.run vs.length s = (none, s.passed vs.length { s.memory with frames := fs, data := rest }) := by
  induction vs generalizing ys s with
  | nil =>
    cases List.eq_nil_of_length_eq_zero hlength.symm
    refine ⟨s.memory.frames, rfl, ?_⟩
    rw [← show s.memory.data = rest from hdata]
    rfl
  | cons v vs ih =>
    cases ys with
    | nil => cases hlength
    | cons x ys =>
      have hv := hvars v List.mem_cons_self
      obtain ⟨gs, hgs⟩ := s.memory.frames.exists_assign v x hv
      have hset := s.memory.frames.setsOnly_of_assign gs v x hgs
      let mem : Memory := { s.memory with frames := gs, data := ys ++ rest }
      have hrun := m.run_succ_of_ahead vs.length s _ mem hs (hcode.head m)
        fun order => Instr.effect_pops m.labels s order v x gs hv hgs _ hdata
      have hdeclared : ∀ w ∈ vs, gs.Declared w.frame.place w.name :=
        fun w hw => hset.declared (hvars w (List.mem_cons_of_mem _ hw))
      obtain ⟨fs, hfs, hrest⟩ := ih ys (s.passed 1 mem) hs (hcode.right m s.pc [_] _)
        (Nat.succ.inj hlength) hdeclared rfl
      refine ⟨fs, ?_, ?_⟩
      · rw [List.zip_cons_cons, s.memory.frames.assignAll_cons gs v x _ hgs]
        exact hfs
      · rw [List.length_cons, hrun, hrest, State.passed_passed, Nat.add_comm 1]
        rfl

/-- **What goes through the data stack comes out in reverse.**  PUSHS of symbols that have values and
then POPS into as many declared variables succeed and leave the data stack as it was.  The variables
are set in order to the values that the symbols had at the beginning, the last one first, so that
each holds what it was set to last, or what it held before.  One value is transferred as MOVE does. -/
theorem transfer_reverses (s : State) (as : List Symbol) (vs : List Var) (xs : List Value)
    (hs : s.status = .running) (hlength : as.length = vs.length)
    (hcode : m.Has s.pc (as.map .pushs ++ vs.map .pops))
    (hvals : List.Forall₂ (fun a x => s.memory.value a = .ok x) as xs)
    (hvars : ∀ v ∈ vs, s.memory.frames.Declared v.frame.place v.name) :
    ∃ fs, s.memory.frames.assignAll (vs.zip xs.reverse) = .ok fs ∧
      m.run (2 * vs.length) s
        = (none, s.passed (2 * vs.length) { s.memory with frames := fs }) ∧
      (∀ p name, fs.slot? p name = ((Frames.lastSet? (vs.zip xs.reverse) p name).map .holds).or
        (s.memory.frames.slot? p name)) ∧
      ∀ a v, as = [a] → vs = [v] → ∀ order, m.outcome s order (.unary .move v a)
        = .ok .ahead { s with memory := { s.memory with frames := fs } } := by
  have hreverse : vs.length = xs.reverse.length := by
    rw [List.length_reverse, ← hvals.length_eq, hlength]
  -- the phases meet where the values lie on the data stack, the last one on top
  let mem : Memory := { s.memory with data := xs.reverse ++ s.memory.data }
  have hpush : m.run vs.length s = (none, s.passed vs.length mem) := by
    rw [← hlength]
    exact m.run_pushs as xs s hs (hcode.left m) hvals
  have hright : m.Has (s.pc + vs.length) (vs.map .pops) := by
    have hright := hcode.right m
    rwa [List.length_map, hlength] at hright
  obtain ⟨fs, hfs, hpop⟩ := m.run_pops vs xs.reverse s.memory.data (s.passed vs.length mem) hs
    hright hreverse hvars rfl
  refine ⟨fs, hfs, ?_, s.memory.frames.slot?_of_assignAll fs _ hfs, ?_⟩
  · rw [Nat.two_mul, m.run_add_of_unfinished _ _ _ _ hpush, ← State.passed_passed]
    exact hpop
  · rintro a v rfl rfl order
    cases hvals with
    | @cons _ x _ _ hx hnil =>
      cases hnil
      have hassign : s.memory.frames.assign v x = .ok fs := by
        obtain ⟨gs, hgs, hnil⟩ := (bind_eq_ok _ _ _).mp hfs
        cases hnil
        exact hgs
      have hv := hvars v List.mem_cons_self
      rw [outcome_eq_finish, Instr.effect_move m.labels s order v a x fs hv hassign hx]
      rfl

/-- two variables whose values are exchanged -/
def swappingMachine : Machine :=
  ⟨Program.ofInstrs [.defVar ⟨.gf, "x"⟩, .defVar ⟨.gf, "y"⟩,
    .unary .move ⟨.gf, "x"⟩ (.literal (.int 1)), .unary .move ⟨.gf, "y"⟩ (.literal (.string "a")),
    .pushs (.var ⟨.gf, "x"⟩), .pushs (.var ⟨.gf, "y"⟩), .pops ⟨.gf, "x"⟩, .pops ⟨.gf, "y"⟩],
    ⟨[]⟩, rfl⟩

theorem transfer_reverses_swap :
    let m := swappingMachine
    let s := m.after 4 (State.start [] (Sink.new none) (Sink.new none))
    s.status = .running ∧ ∃ t, m.run 4 s = (none, t) ∧
      t.memory.frames.read ⟨.gf, "x"⟩ = .ok (.string "a") ∧
      t.memory.frames.read ⟨.gf, "y"⟩ = .ok (.int 1) ∧ t.memory.data = s.memory.data := by
  intro m s
  have hs : s.status = .running := by decide
  have hcode : m.Has s.pc ([.pushs (.var ⟨.gf, "x"⟩), .pushs (.var ⟨.gf, "y"⟩)]
      ++ [.pops ⟨.gf, "x"⟩, .pops ⟨.gf, "y"⟩]) := by
    rw [show s.pc = 4 by decide]
    exact ⟨[], rfl⟩
  have hx : s.memory.value (.var ⟨.gf, "x"⟩) = .ok (.int 1) := by decide
  have hy : s.memory.value (.var ⟨.gf, "y"⟩) = .ok (.string "a") := by decide
  clear_value s
  clear_value m
  have hvars : ∀ v ∈ [(⟨.gf, "x"⟩ : Var), ⟨.gf, "y"⟩],
      s.memory.frames.Declared v.frame.place v.name :=
    List.forall_mem_cons.mpr ⟨s.memory.declared_of_value _ _ hx,
      List.forall_mem_singleton.mpr (s.memory.declared_of_value _ _ hy)⟩
  obtain ⟨fs, _, hrun, hslots, _⟩ := m.transfer_reverses s [.var ⟨.gf, "x"⟩, .var ⟨.gf, "y"⟩]
    [⟨.gf, "x"⟩, ⟨.gf, "y"⟩] [.int 1, .string "a"] hs rfl hcode (.cons hx (.cons hy .nil)) hvars
  refine ⟨hs, _, hrun, ?_, ?_, rfl⟩
  · exact (fs.read_eq_ok_iff _ _).mpr (hslots .gf "x")
  · exact (fs.read_eq_ok_iff _ _).mpr (hslots .gf "y")

end Machine
end IPPcode24
