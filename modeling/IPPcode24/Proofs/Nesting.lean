import IPPcode24.Proofs.FrameUse
import IPPcode24.Proofs.Stacks

/-!
# Nested frames

Instructions reach the innermost local frame and no other: those further out are frozen until they
become the innermost one again.

* `FrameUse.Moves.rtake_locals`    a move keeps what lies below a depth that it stays above
* `FrameUse.Moves.pops_of_depth_lt`   only POPFRAME makes the depth smaller
* `Machine.locals_frozen`          a run keeps what lies below a depth that it stays above
* `Machine.pops_of_depth_lt`       the step that comes back to a depth
* `Machine.popFrame_at_return`     the step that comes back to the depth of a PUSHFRAME

Main statement, `Machine.outer_frames_frozen`: from PUSHFRAME to the POPFRAME that belongs to it.
-/

namespace IPPcode24

/-! ## one move -/

namespace Frames

variable (fs : Frames) (f : Frame) (k : FrameName)

theorem depth_replace : (fs.replace f k).depth = fs.depth := by
  cases k with
  | gf => rfl
  | lf =>
    cases hl : fs.locals with
    | nil => rw [replace, hl]
    | cons g outer => simp [replace, depth, hl]
  | tf => cases ht : fs.temporary <;> simp [replace, depth, ht]

/-- a frame that is put under a name is not below the innermost one -/
theorem rtake_locals_replace (d : Nat) (hd : d < fs.depth) :
    (fs.replace f k).locals.rtake d = fs.locals.rtake d := by
  cases k with
  | gf => rfl
  | lf =>
    cases hl : fs.locals with
    | nil => rw [replace, hl, hl]
    | cons g outer =>
      have hle : d ≤ outer.length := by
        rw [depth, hl, List.length_cons] at hd
        exact Nat.le_of_lt_succ hd
      simp only [replace, hl]
      rw [rtake_cons_of_le f outer d hle, rtake_cons_of_le g outer d hle]
  | tf => cases ht : fs.temporary <;> simp [replace, ht]

end Frames

namespace FrameUse.Moves

variable (fs gs : Frames) (u : FrameUse)

theorem rtake_locals (h : u.Moves fs gs) (d : Nat) (hd : d < fs.depth) (hd' : d < gs.depth) :
    gs.locals.rtake d = fs.locals.rtake d := by
  cases h with
  | looks => rfl
  | sets dst x f s hf hs => exact fs.rtake_locals_replace _ _ d hd
  | declares v f hf hn => exact fs.rtake_locals_replace _ _ d hd
  | creates => rfl
  | pushes f ht => exact rtake_cons_of_le f fs.locals d (Nat.le_of_lt hd)
  | pops f outer hl =>
    rw [hl]
    exact (rtake_cons_of_le f outer d (Nat.le_of_lt hd')).symm

theorem depth_le (h : u.Moves fs gs) : fs.depth ≤ gs.depth + 1 := by
  cases h with
  | looks => exact Nat.le_succ _
  | sets dst x f s hf hs => rw [Frames.depth_replace]; exact Nat.le_succ _
  | declares v f hf hn => rw [Frames.depth_replace]; exact Nat.le_succ _
  | creates => exact Nat.le_succ _
  | pushes f ht => exact Nat.le_succ_of_le (Nat.le_succ _)
  | pops f outer hl =>
    rw [Frames.depth, hl]
    exact Nat.le_refl _

theorem pops_of_depth_lt (h : u.Moves fs gs) (hlt : gs.depth < fs.depth) :
    u = .pops ∧ ∃ f, fs.locals = f :: gs.locals ∧
      gs = { fs with locals := gs.locals, temporary := some f } := by
  cases h with
  | looks => exact absurd hlt (Nat.lt_irrefl _)
  | sets dst x f s hf hs => rw [Frames.depth_replace] at hlt; exact absurd hlt (Nat.lt_irrefl _)
  | declares v f hf hn => rw [Frames.depth_replace] at hlt; exact absurd hlt (Nat.lt_irrefl _)
  | creates => exact absurd hlt (Nat.lt_irrefl _)
  | pushes f ht => exact absurd hlt (Nat.not_lt.mpr (Nat.le_succ _))
  | pops f outer hl => exact ⟨rfl, f, hl, rfl⟩

end FrameUse.Moves

theorem Instr.frameUse_eq_pops (i : Instr) (h : i.frameUse = .pops) : i = .popFrame := by
  cases i with
  | popFrame => rfl
  | _ => cases h

/-! ## runs -/

namespace Machine

variable (m : Machine) (s : State)

theorem depth_le_step : s.memory.frames.depth ≤ (m.step s).state.memory.frames.depth + 1 := by
  obtain ⟨_, i, _, h⟩ | ⟨_, h⟩ := m.frames_step s
  · exact h.depth_le
  · rw [h]
    exact Nat.le_succ _

theorem rtake_locals_step (d : Nat) (hd : d < s.memory.frames.depth)
    (hd' : d < (m.step s).state.memory.frames.depth) :
    (m.step s).state.memory.frames.locals.rtake d = s.memory.frames.locals.rtake d := by
  obtain ⟨_, i, _, h⟩ | ⟨_, h⟩ := m.frames_step s
  · exact h.rtake_locals _ _ _ d hd hd'
  · rw [h]

/-- the local frames below a depth that a run stays above are frozen -/
theorem locals_frozen (d a b : Nat) (hab : a ≤ b)
    (h : ∀ k ≤ b, a ≤ k → d < (m.after k s).memory.frames.depth) :
    (m.after b s).memory.frames.locals.rtake d = (m.after a s).memory.frames.locals.rtake d := by
  refine eq_of_steps (fun k => (m.after k s).memory.frames.locals.rtake d) a b hab fun k hk hak => ?_
  exact m.rtake_locals_step (m.after k s) d (h k (Nat.le_of_lt hk) hak)
    (h (k + 1) hk (Nat.le_succ_of_le hak))

/-- a smaller depth is that after a POPFRAME, which makes the innermost frame the temporary one -/
theorem pops_of_depth_lt (h : (m.step s).state.memory.frames.depth < s.memory.frames.depth) :
    m.instr? s.pc = some .popFrame ∧ m.executes s = true ∧
      ∃ f, s.memory.frames.locals = f :: (m.step s).state.memory.frames.locals ∧
        (m.step s).state.memory.frames = { s.memory.frames with
          locals := (m.step s).state.memory.frames.locals, temporary := some f } := by
  obtain ⟨hx, i, hi, hmove⟩ | ⟨_, heq⟩ := m.frames_step s
  · obtain ⟨hu, hf⟩ := hmove.pops_of_depth_lt _ _ _ h
    rw [i.frameUse_eq_pops hu] at hi
    exact ⟨hi, hx, hf⟩
  · rw [heq] at h
    exact absurd h (Nat.lt_irrefl _)

/-- a PUSHFRAME that is executed makes the temporary frame the innermost local one -/
theorem frames_of_pushFrame (hi : m.instr? s.pc = some .pushFrame) (hx : m.executes s = true) :
    ∃ f, s.memory.frames.temporary = some f ∧ (m.step s).state.memory.frames =
      { s.memory.frames with locals := f :: s.memory.frames.locals, temporary := none } :=
  (Frames.push_eq_ok _ _).mp (m.moves_of_executes s _ hi hx).push_eq

/-- a POPFRAME is executed where there is a local frame, and makes it the temporary one -/
theorem executes_popFrame (hs : s.status = .running) (hi : m.instr? s.pc = some .popFrame)
    (f : Frame) (outer : List Frame) (hl : s.memory.frames.locals = f :: outer) :
    m.executes s = true ∧ (m.step s).state.memory.frames =
      { s.memory.frames with locals := outer, temporary := some f } := by
  obtain ⟨r, hr, hri⟩ := Option.map_eq_some_iff.mp hi
  have hpop : s.memory.frames.pop = .ok
      { s.memory.frames with locals := outer, temporary := some f } :=
    (Frames.pop_eq_ok _ _).mpr ⟨f, outer, hl, rfl⟩
  have he : r.instr.effect m.labels s r.order = .ok (.ahead { s.memory with
      frames := { s.memory.frames with locals := outer, temporary := some f } }) := by
    rw [hri, Instr.effect, hpop]
    rfl
  have hx := m.executes_of_effect s r _ hs hr he rfl
  refine ⟨hx, ?_⟩
  have hstep := (m.moves_of_executes s _ hi hx).pop_eq
  rw [hpop] at hstep
  exact (Except.ok.inj hstep).symm

/-- so one right behind a PUSHFRAME takes it back -/
theorem popFrame_behind_pushFrame (hi : m.instr? s.pc = some .pushFrame)
    (hx : m.executes s = true) (hi' : m.instr? (s.pc + 1) = some .popFrame) :
    m.executes (m.after 1 s) = true ∧ (m.after 2 s).memory.frames = s.memory.frames := by
  obtain ⟨f, ht, hframes⟩ := m.frames_of_pushFrame s hi hx
  have hahead : (m.after 1 s).status = .running ∧ (m.after 1 s).pc = s.pc + 1 := by
    obtain ⟨r, e, hr, he, hstep⟩ := m.step_of_executes s hx
    rw [m.instr?_of_get? s.pc r hr] at hi
    rw [Option.some.inj hi] at he
    rw [after_succ, after, hstep]
    cases he with
    | pushFrame fs hp => exact ⟨rfl, State.perform_pc _ _⟩
  have hl : (m.after 1 s).memory.frames.locals = f :: s.memory.frames.locals :=
    congrArg Frames.locals hframes
  obtain ⟨hx', hback⟩ := m.executes_popFrame (m.after 1 s) hahead.1 (by rw [hahead.2]; exact hi')
    f _ hl
  refine ⟨hx', ?_⟩
  calc (m.after 2 s).memory.frames
      = { (m.after 1 s).memory.frames with
          locals := s.memory.frames.locals, temporary := some f } := hback
    _ = { s.memory.frames with temporary := some f } := by
      rw [show (m.after 1 s).memory.frames = _ from hframes]
    _ = s.memory.frames := by rw [← ht]

/-- behind a PUSHFRAME the local frames of before are frozen for as long as there are more -/
theorem locals_behind_pushFrame (hi : m.instr? s.pc = some .pushFrame) (hx : m.executes s = true)
    (n : Nat) (hn : 0 < n)
    (habove : ∀ k ≤ n, 0 < k → s.memory.frames.depth + 1 ≤ (m.after k s).memory.frames.depth) :
    (m.after n s).memory.frames.locals.rtake s.memory.frames.depth = s.memory.frames.locals := by
  obtain ⟨f, _, hframes⟩ := m.frames_of_pushFrame s hi hx
  have hpushed : (m.after 1 s).memory.frames.locals = f :: s.memory.frames.locals :=
    congrArg Frames.locals hframes
  rw [m.locals_frozen s s.memory.frames.depth 1 n hn habove, hpushed,
    rtake_cons_of_le f _ s.memory.frames.depth (Nat.le_refl _)]
  exact rtake_length _

/-- until the first state with the depth of before there are more -/
theorem depth_lt_of_pushFrame (hi : m.instr? s.pc = some .pushFrame) (hx : m.executes s = true)
    (n : Nat)
    (hfirst : ∀ k ≤ n, 0 < k → (m.after k s).memory.frames.depth ≠ s.memory.frames.depth) :
    ∀ k ≤ n, 0 < k → s.memory.frames.depth < (m.after k s).memory.frames.depth := by
  obtain ⟨f, _, hframes⟩ := m.frames_of_pushFrame s hi hx
  have hdepth : (m.after 1 s).memory.frames.depth = s.memory.frames.depth + 1 :=
    congrArg Frames.depth hframes
  intro k hk hk0
  refine lt_of_sinking (fun k => (m.after k s).memory.frames.depth)
    (fun k => m.depth_le_step (m.after k s)) _ 1 k hk0 (by omega) fun j hj hj1 => ?_
  exact hfirst j (by omega) (by omega)

/-- the step to that state is a POPFRAME -/
theorem popFrame_at_return (hi : m.instr? s.pc = some .pushFrame) (hx : m.executes s = true)
    (n : Nat) (hback : (m.after (n + 1) s).memory.frames.depth = s.memory.frames.depth)
    (hfirst : ∀ k ≤ n, 0 < k → (m.after k s).memory.frames.depth ≠ s.memory.frames.depth) :
    (m.after (n + 1) s).memory.frames.locals = s.memory.frames.locals ∧
      m.instr? (m.after n s).pc = some .popFrame ∧ m.executes (m.after n s) = true ∧
      ∃ f, (m.after n s).memory.frames.locals = f :: s.memory.frames.locals ∧
        (m.after (n + 1) s).memory.frames = { (m.after n s).memory.frames with
          locals := s.memory.frames.locals, temporary := some f } := by
  -- the run does not come back with the PUSHFRAME itself
  have hn : 0 < n := by
    refine Nat.pos_of_ne_zero ?_
    rintro rfl
    obtain ⟨f, _, hframes⟩ := m.frames_of_pushFrame s hi hx
    have hdepth : (m.after 1 s).memory.frames.depth = s.memory.frames.depth + 1 :=
      congrArg Frames.depth hframes
    exact absurd (hdepth.symm.trans hback) (Nat.succ_ne_self _)
  have habove := m.depth_lt_of_pushFrame s hi hx n hfirst
  have hkept := m.locals_behind_pushFrame s hi hx n hn habove
  -- so the last step takes one frame off, and leaves those that are frozen
  have hlt : (m.after (n + 1) s).memory.frames.depth < (m.after n s).memory.frames.depth := by
    rw [hback]
    exact habove n (Nat.le_refl n) hn
  obtain ⟨hpop, hexec, g, hg, hgs⟩ := m.pops_of_depth_lt (m.after n s) hlt
  have hlocals : (m.after (n + 1) s).memory.frames.locals = s.memory.frames.locals :=
    calc (m.after (n + 1) s).memory.frames.locals
        = (m.after (n + 1) s).memory.frames.locals.rtake s.memory.frames.depth := by
          rw [← hback]
          exact (rtake_length _).symm
      _ = (m.after n s).memory.frames.locals.rtake s.memory.frames.depth := by
          rw [hg]
          exact (rtake_cons_of_le g _ _ (Nat.le_of_eq hback.symm)).symm
      _ = s.memory.frames.locals := hkept
  have hstep : (m.after (n + 1) s).memory.frames.locals
      = (m.step (m.after n s)).state.memory.frames.locals := rfl
  rw [← hstep, hlocals] at hg hgs
  exact ⟨hlocals, hpop, hexec, g, hg, hgs⟩

/-! ## the main statement -/

/-- **Outer frames are frozen.**  From a PUSHFRAME that is executed, the local frames of before stay
as they were for as long as there are more of them.  The first state with their number again has
just these local frames; the step to it was a POPFRAME, which made the innermost frame of before the
step the temporary one, whatever was staged there, and changed no other frame.  A POPFRAME right
behind the PUSHFRAME is executed and restores all frames. -/
theorem outer_frames_frozen (hi : m.instr? s.pc = some .pushFrame) (hx : m.executes s = true) :
    (∀ n, 0 < n →
      (∀ k ≤ n, 0 < k → s.memory.frames.depth + 1 ≤ (m.after k s).memory.frames.depth) →
      (m.after n s).memory.frames.locals.rtake s.memory.frames.depth = s.memory.frames.locals) ∧
    (∀ n, (m.after (n + 1) s).memory.frames.depth = s.memory.frames.depth →
      (∀ k ≤ n, 0 < k → (m.after k s).memory.frames.depth ≠ s.memory.frames.depth) →
      (m.after (n + 1) s).memory.frames.locals = s.memory.frames.locals ∧
      m.instr? (m.after n s).pc = some .popFrame ∧ m.executes (m.after n s) = true ∧
      ∃ f, (m.after n s).memory.frames.locals = f :: s.memory.frames.locals ∧
        (m.after (n + 1) s).memory.frames = { (m.after n s).memory.frames with
          locals := s.memory.frames.locals, temporary := some f }) ∧
    (m.instr? (s.pc + 1) = some .popFrame →
      m.executes (m.after 1 s) = true ∧ (m.after 2 s).memory.frames = s.memory.frames) := by
  exact ⟨m.locals_behind_pushFrame s hi hx, m.popFrame_at_return s hi hx,
    m.popFrame_behind_pushFrame s hi hx⟩

/-- a callee with a frame of its own for the same variable, which stages two more frames -/
def nestedMachine : Machine :=
  ⟨Program.ofInstrs [.createFrame, .defVar ⟨.tf, "x"⟩,
    .unary .move ⟨.tf, "x"⟩ (.literal (.int 1)), .pushFrame,
    .createFrame, .defVar ⟨.tf, "x"⟩, .pushFrame, .unary .move ⟨.lf, "x"⟩ (.literal (.int 2)),
    .createFrame, .pushFrame, .popFrame, .popFrame], ⟨[]⟩, rfl⟩

theorem outer_frames_frozen_nested :
    let s := nestedMachine.after 6 (State.start [] (Sink.new none) (Sink.new none))
    s.memory.frames.depth = 1 ∧
      (nestedMachine.after 5 s).memory.frames.locals.rtake 1 = s.memory.frames.locals ∧
      (nestedMachine.after 6 s).memory.frames.locals = s.memory.frames.locals ∧
      nestedMachine.instr? (nestedMachine.after 5 s).pc = some .popFrame ∧
      (nestedMachine.after 5 s).memory.frames.temporary = some Frame.empty ∧
      ∃ f, (nestedMachine.after 6 s).memory.frames.temporary = some f ∧
        f.get? "x" = some (.holds (.int 2)) := by
  intro s
  have hdepth : s.memory.frames.depth = 1 := by decide
  obtain ⟨hfrozen, hback, _⟩ :=
    nestedMachine.outer_frames_frozen s (by decide) (by decide)
  have hkept := hfrozen 5 (by decide) (by decide)
  rw [hdepth] at hkept
  have hpopped := hback 5 (by decide) (by decide)
  rw [show 5 + 1 = 6 from rfl] at hpopped
  obtain ⟨hlocals, hpop, _, f, hf, hfs⟩ := hpopped
  have hx : ((nestedMachine.after 5 s).memory.frames.locals.head?.bind fun g => g.get? "x")
      = some (.holds (.int 2)) := by decide
  rw [hf, List.head?_cons, Option.bind_some] at hx
  exact ⟨hdepth, hkept, hlocals, hpop, by decide, f, congrArg Frames.temporary hfs, hx⟩

end Machine
end IPPcode24
