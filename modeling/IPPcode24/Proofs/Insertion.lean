import IPPcode24.Proofs.Mirror
import IPPcode24.Proofs.Runs
import Mathlib.Data.List.Perm.Basic

/-!
# One more instruction

A `BREAK`, or a label that nothing goes to, may stand anywhere in a program: the run takes a step
more whenever it comes there and is the same otherwise.  What was behind it is one further on.

* `shifted k i`, `shiftedReturn k r`   where the instruction of an index is, and where a return goes
* `Program.Inserted p k x p'`          `p'` is `p` with `x` inserted at `k`
* `State.Shifted k s s'`               `s'` is `s` in the longer program: at the same instruction,
                                       or still before the inserted one
* `Program.Inserted.catches_up`        the longer run comes to the same instruction
* `Program.Inserted.step`              from there both go one step
* `Program.Inserted.run_of_unfinished`, `run_of_finished`   and so any number of steps

Main statement, `Machine.run_insert`: both runs end alike or not at all.
-/

namespace IPPcode24

/-! ## places -/

/-- where the instruction of an index is when another is inserted at `k` -/
def shifted (k i : Nat) : Nat := if i < k then i else i + 1

/-- where a return goes then: to the inserted instruction itself, if the call was right before -/
def shiftedReturn (k r : Nat) : Nat := if r ≤ k then r else r + 1

theorem shifted_add_one (k i : Nat) : shifted k i + 1 = shiftedReturn k (i + 1) := by
  rw [shifted, shiftedReturn, apply_ite (· + 1)]
  rfl

theorem shiftedReturn_eq (k r : Nat) :
    shiftedReturn k r = shifted k r ∨ r = k ∧ shiftedReturn k r = k := by
  rw [shifted, shiftedReturn]
  split <;> split <;> omega

/-- every place but that of the inserted instruction is one of another -/
theorem exists_shifted (k j : Nat) (hj : j ≠ k) : ∃ i, shifted k i = j := by
  rcases Nat.lt_or_gt_of_ne hj with hlt | hgt
  · exact ⟨j, if_pos hlt⟩
  · refine ⟨j - 1, ?_⟩
    rw [shifted, if_neg (by omega)]
    omega

def Fault.shifted (k : Nat) (f : Fault) : Fault := { f with index := IPPcode24.shifted k f.index }

def Outcome.shifted (k : Nat) : Outcome → Outcome
  | .exit code => .exit code
  | .fault f => .fault (f.shifted k)

/-- the same names, and the places after an insertion -/
def Mirror.insertion (k : Nat) : Mirror where
  names := .same
  used := Set.univ
  injOn := Set.injOn_id _
  place := shifted k
  back := shiftedReturn k

structure State.Shifted (k : Nat) (s s' : State) : Prop where
  mirrors : s.Mirrors (.insertion k) s'
  running : s.status = .running
  pc : s'.pc = shifted k s.pc ∨ s.pc = k ∧ s'.pc = k

/-- where an effect goes on, that which mirrors it goes on at the same instruction, or at the inserted
one before it -/
theorem State.Shifted.perform (k : Nat) (s u : State) (e f : Effect)
    (hu : s.Mirrors (.insertion k) u) (hpc : u.pc = IPPcode24.shifted k s.pc)
    (he : e.Mirrors (.insertion k) f) (hs : e.course.status = .running) :
    (s.perform e).Shifted k (u.perform f) := by
  refine ⟨hu.perform e f he, hs, ?_⟩
  have hcourse := he.course
  rw [State.perform_pc, State.perform_pc, hpc]
  generalize e.course = c, f.course = d at hcourse hs
  cases hcourse with
  | ahead =>
    rw [Course.pc, Course.pc, shifted_add_one]
    exact shiftedReturn_eq k (s.pc + 1)
  | label i => exact .inl rfl
  | back i => exact shiftedReturn_eq k i
  | stop code => cases hs

/-! ## programs -/

/-- `p'` is `p` with `x` inserted at `k`, a `BREAK` or a label that `p` has nothing to do with -/
structure Program.Inserted (p : Program) (k : Nat) (x : Instr) (p' : Program) : Prop where
  le_size : k ≤ p.size
  instrs : p'.instrs = p.instrs.insertIdx k x
  inert : x = .brk ∨ ∃ name, x = .label name ∧ name ∉ p.labelNames

namespace Program.Inserted

section
variable {p p' : Program} {k : Nat} {x : Instr} (h : p.Inserted k x p')
include h

theorem le_length : k ≤ p.instrs.length := by
  rw [Program.instrs, List.length_map, Array.length_toList]
  exact h.le_size

/-- the longer program can be loaded if the other can -/
theorem nodup_labels (hp : (p.instrs.filterMap Instr.label?).Nodup) :
    (p'.instrs.filterMap Instr.label?).Nodup := by
  have hperm := (List.perm_insertIdx x p.instrs h.le_length).filterMap Instr.label?
  rw [h.instrs, hperm.nodup_iff]
  obtain rfl | ⟨name, rfl, hname⟩ := h.inert
  · exact hp
  · exact List.nodup_cons.mpr ⟨fun hmem => hname (p.mem_labelNames_of_label? name hmem), hp⟩

end

section
variable {m m' : Machine} {k : Nat} {x : Instr} (h : m.program.Inserted k x m'.program)
include h

theorem instr?_shifted (i : Nat) : m'.instr? (shifted k i) = m.instr? i := by
  rw [m'.instr?_eq_getElem?, m.instr?_eq_getElem?, h.instrs, shifted]
  split
  · next hi => exact List.getElem?_insertIdx_of_lt hi
  · next hi =>
    exact List.getElem?_insertIdx_of_gt (Nat.lt_succ_of_le (Nat.le_of_not_lt hi))

theorem instr?_self : m'.instr? k = some x := by
  rw [m'.instr?_eq_getElem?, h.instrs, List.getElem?_insertIdx_self, if_pos h.le_length]

/-- a label is found where its instruction went -/
theorem find?_eq (name : String) (hname : name ∈ m.program.labelNames) :
    m'.labels.find? name = (m.labels.find? name).map (shifted k) := by
  refine Option.ext fun j => ?_
  rw [Machine.find?_label, Option.map_eq_some_iff]
  simp only [Machine.find?_label]
  constructor
  · intro hj
    by_cases hjk : j = k
    · -- the inserted instruction is not this label
      rw [hjk, h.instr?_self, Option.some.injEq] at hj
      obtain rfl | ⟨other, rfl, hother⟩ := h.inert
      · cases hj
      · cases hj
        exact absurd hname hother
    · obtain ⟨i, rfl⟩ := exists_shifted k j hjk
      rw [h.instr?_shifted] at hj
      exact ⟨i, hj, rfl⟩
  · rintro ⟨i, hi, rfl⟩
    rw [h.instr?_shifted, hi]

/-! ## steps -/

/-- the inserted instruction is executed, and writes to standard error at most -/
theorem step_self (s : State) (hs : s.status = .running) (hpc : s.pc = k)
    (hstderr : s.stderr.limit = none) :
    ∃ t, m'.step s = ⟨t, none⟩ ∧ t.memory = s.memory ∧ t.pc = k + 1 ∧ t.status = .running ∧
      t.stdout = s.stdout ∧ t.stderr.limit = none := by
  have hinstr := h.instr?_self
  rw [← hpc, Machine.instr?, Option.map_eq_some_iff] at hinstr
  obtain ⟨r, hr, hx⟩ := hinstr
  rw [m'.step_of_get? s r hs hr, hx]
  obtain rfl | ⟨name, rfl, _⟩ := h.inert
  · have hroom : s.hasRoom (some (.stderr, s.report r.order)) = true := by
      simp only [State.hasRoom, State.sink, Sink.fits, hstderr]
    rw [Instr.effect, State.finish, hroom]
    exact ⟨_, rfl, rfl, congrArg (· + 1) hpc, rfl, rfl, hstderr⟩
  · exact ⟨_, rfl, rfl, congrArg (· + 1) hpc, rfl, rfl, hstderr⟩

/-- the longer run comes to the same instruction -/
theorem catches_up (s s' : State) (hs : s.Shifted k s') :
    ∃ d u, m'.run d s' = (none, u) ∧ s.Mirrors (.insertion k) u ∧ u.pc = shifted k s.pc := by
  obtain ⟨⟨memory, status, stdout, stderr, stderr'⟩, running, hpc | ⟨hk, hk'⟩⟩ := hs
  · exact ⟨0, s', rfl, ⟨memory, status, stdout, stderr, stderr'⟩, hpc⟩
  · obtain ⟨u, hstep, hmemory, hpc, hrunning, hstdout, hstderr⟩ :=
      h.step_self s' (status.trans running) hk' stderr'
    refine ⟨1, u, m'.run_succ_of_running 0 s' u hstep hrunning, ?_, ?_⟩
    · exact ⟨hmemory ▸ memory, hrunning.trans running.symm, hstdout.trans stdout, stderr, hstderr⟩
    · rw [hpc, hk, shifted, if_neg (Nat.lt_irrefl k)]

/-- from the same instruction both go on, or both end -/
theorem step (s u : State) (hu : s.Mirrors (.insertion k) u) (hs : s.status = .running)
    (hpc : u.pc = shifted k s.pc) :
    (∃ t t', m.step s = ⟨t, none⟩ ∧ m'.step u = ⟨t', none⟩ ∧ t.Shifted k t') ∨
      ∃ o t t', m.run 1 s = (some o, t) ∧ m'.run 1 u = (some (o.shifted k), t') ∧
        t.Mirrors (.insertion k) t' := by
  have hinstr := h.instr?_shifted s.pc
  rw [← hpc, Machine.instr?, Machine.instr?] at hinstr
  cases hr : m.program.get? s.pc with
  | none =>
    rw [hr, Option.map_none, Option.map_eq_none_iff] at hinstr
    exact .inr ⟨.exit 0, _, _, m.run_succ_of_halted 0 s _ 0 (m.step_of_end s hs hr) rfl,
      m'.run_succ_of_halted 0 u _ 0 (m'.step_of_end u (hu.status.trans hs) hinstr) rfl, hu.halt⟩
  | some r =>
    rw [hr, Option.map_some, Option.map_eq_some_iff] at hinstr
    obtain ⟨r', hr', hri⟩ := hinstr
    have hnext : u.pc + 1 = shiftedReturn k (s.pc + 1) := by rw [hpc, shifted_add_one]
    have hstep := Machine.step_mirrors m m' s u r r' hu hs hr hr'
      (hri.trans r.instr.rename_same.symm) (Set.subset_univ _) h.find?_eq hnext
    have hstate := hstep.state hu
    generalize hm : m.step s = v, hm' : m'.step u = v' at hstep hstate
    cases hstep with
    | fault o c =>
      refine .inr ⟨_, _, _, m.run_succ_of_fault 0 s _ _ hm, ?_, hstate⟩
      rw [m'.run_succ_of_fault 0 u _ _ hm', hpc, Mirror.insertion, Cause.rename_same]
      rfl
    | done e f he =>
      cases hc : e.course.status with
      | running => exact .inl ⟨_, _, rfl, rfl, .perform k s u e f hu hpc he hc⟩
      | halted code =>
        exact .inr ⟨.exit code, _, _, m.run_succ_of_halted 0 s _ code hm hc,
          m'.run_succ_of_halted 0 u _ code hm' (he.course.status_eq.trans hc), hstate⟩

/-! ## runs -/

/-- the longer run goes on as long as the other does -/
theorem run_of_unfinished (n : Nat) (s s' t : State) (hs : s.Shifted k s')
    (hrun : m.run n s = (none, t)) :
    ∃ n' t', n ≤ n' ∧ m'.run n' s' = (none, t') ∧ t.Shifted k t' := by
  -- every step of the shorter run costs the longer one a step or two
  induction n generalizing s s' with
  | zero =>
    cases hrun
    exact ⟨0, s', Nat.le_refl 0, rfl, hs⟩
  | succ n ih =>
    obtain ⟨v, hv, hvr, hrun⟩ := m.unfinished_succ n s t hrun
    obtain ⟨d, u, hd, hu, hpc⟩ := h.catches_up s s' hs
    obtain ⟨w, w', hw, hw', hww⟩ | ⟨o, w, w', hw, _⟩ := h.step s u hu hs.running hpc
    · cases hv.symm.trans hw
      obtain ⟨n', t', hn, hrun', ht⟩ := ih v w' hww hrun
      refine ⟨d + (n' + 1), t', by omega, ?_, ht⟩
      rw [m'.run_add_of_unfinished d s' u _ hd,
        m'.run_succ_of_running n' u w' hw' (hww.mirrors.status.trans hvr), hrun']
    · rw [m.run_succ_of_running 0 s v hv hvr] at hw
      cases hw

/-- and has its outcome -/
theorem run_of_finished (n : Nat) (s s' t : State) (o : Outcome) (hs : s.Shifted k s')
    (hrun : m.run n s = (some o, t)) :
    ∃ n' t', m'.run n' s' = (some (o.shifted k), t') ∧ t.Mirrors (.insertion k) t' := by
  obtain ⟨j, v, _, hv, hlast⟩ := m.exists_last_step n s t o hrun
  obtain ⟨n', v', _, hrun', hvv⟩ := h.run_of_unfinished j s s' v hs hv
  obtain ⟨d, u, hd, hu, hpc⟩ := h.catches_up v v' hvv
  obtain ⟨w, w', hw, _, hww⟩ | ⟨o', w, w', hw, hw', hww⟩ := h.step v u hu hvv.running hpc
  · rw [m.run_succ_of_running 0 v w hw hww.running] at hlast
    cases hlast
  · cases hlast.symm.trans hw
    refine ⟨n' + (d + 1), w', ?_, hww⟩
    rw [m'.run_add_of_unfinished n' s' v' _ hrun', m'.run_add_of_unfinished d v' u _ hd, hw']

end
end Program.Inserted

namespace Machine

/-- **Insertion.**  Put a `BREAK` or an unused label anywhere in a program that can be loaded.  The
longer program can be loaded too, and with room for all on standard error its run ends if that of
the other does, with the same code or a fault for the same cause, one further on if it was not before
that place, with the same on standard output, and the same frames, data stack and remaining input. -/
theorem run_insert (p p' : Program) (k : Nat) (x : Instr) (h : p.Inserted k x p')
    (hp : (p.instrs.filterMap Instr.label?).Nodup) :
    ∃ m m', load p = .ok m ∧ load p' = .ok m' ∧ ∀ (input : Bytes) (stdout : Option Nat),
      let start := State.start input (Sink.new stdout) (Sink.new none)
      ((∃ n' o' t', m'.run n' start = (some o', t')) ↔ ∃ n o t, m.run n start = (some o, t)) ∧
        ∀ n n' o o' t t', m.run n start = (some o, t) → m'.run n' start = (some o', t') →
          o' = o.shifted k ∧ t'.stdout = t.stdout ∧ t'.memory.frames = t.memory.frames ∧
            t'.memory.data = t.memory.data ∧ t'.memory.input = t.memory.input := by
  obtain ⟨m, hm⟩ := (exists_load_iff p).mpr hp
  obtain ⟨m', hm'⟩ := (exists_load_iff p').mpr (h.nodup_labels hp)
  rw [← (load_eq_ok m p).mp hm, ← (load_eq_ok m' p').mp hm'] at h
  refine ⟨m, m', hm, hm', ?_⟩
  intro input stdout start
  have hstart : start.Shifted k start := by
    refine ⟨State.mirrors_start _ input stdout, rfl, ?_⟩
    show 0 = shifted k 0 ∨ 0 = k ∧ 0 = k
    rcases Nat.eq_zero_or_pos k with hk | hk
    · exact .inr ⟨hk.symm, hk.symm⟩
    · exact .inl (if_pos hk).symm
  refine ⟨⟨?_, ?_⟩, ?_⟩
  · rintro ⟨n', o', t', hrun'⟩
    -- a run without an outcome would go on beyond these steps
    cases hrun : m.run n' start with
    | mk o t =>
      cases o with
      | some o => exact ⟨n', o, t, hrun⟩
      | none =>
        obtain ⟨j, v, hj, hv, _⟩ := h.run_of_unfinished n' start start t hstart hrun
        obtain ⟨d, rfl⟩ := Nat.exists_eq_add_of_le hj
        rw [m'.run_add_of_finished n' start t' d o' hrun'] at hv
        cases hv
  · rintro ⟨n, o, t, hrun⟩
    obtain ⟨n', t', hrun', _⟩ := h.run_of_finished n start start t o hstart hrun
    exact ⟨n', _, t', hrun'⟩
  · intro n n' o o' t t' hrun hrun'
    obtain ⟨j, v, hv, hmirrors⟩ := h.run_of_finished n start start t o hstart hrun
    obtain ⟨rfl, rfl⟩ := m'.run_unique j start v n' t' _ _ hv hrun'
    obtain ⟨memory, _, stdout, _, _⟩ := hmirrors
    exact ⟨rfl, stdout, memory.frames.eq_of_id, memory.data, memory.input⟩

/-- a call returns to the inserted instruction, and what is behind it fails one further on -/
theorem run_insert_call :
    let p := Program.ofInstrs (callMachine.program.instrs ++ [.exit (.literal .nil)])
    let p' := Program.ofInstrs (p.instrs.insertIdx 5 .brk)
    p.Inserted 5 .brk p' ∧ (p.instrs.filterMap Instr.label?).Nodup ∧
      ∃ m' n t, load p' = .ok m' ∧ m'.run n (State.start [] (Sink.new none) (Sink.new none))
        = (some (.fault ⟨6, .operandTypes .exit [.nil]⟩), t) := by
  intro p p'
  have hinserted : p.Inserted 5 .brk p' := ⟨by decide, Program.instrs_ofInstrs _, .inl rfl⟩
  have hp : (p.instrs.filterMap Instr.label?).Nodup := by decide
  obtain ⟨m, m', hm, hm', hruns⟩ := run_insert p p' 5 .brk hinserted hp
  obtain ⟨a, ha, hfault⟩ : ∃ a : Machine, a.program = p ∧ (a.run 6 (State.start [] (Sink.new none)
      (Sink.new none))).1 = some (.fault ⟨5, .operandTypes .exit [.nil]⟩) :=
    ⟨⟨p, ⟨[("f", 1), ("main", 3)]⟩, rfl⟩, rfl, by decide⟩
  cases ((load_eq_ok a p).mpr ha).symm.trans hm
  obtain ⟨hends, hsame⟩ := hruns [] none
  obtain ⟨n', o', t', hrun'⟩ := hends.mpr ⟨6, _, _, Prod.ext hfault rfl⟩
  obtain ⟨rfl, _⟩ := hsame 6 n' _ o' _ t' (Prod.ext hfault rfl) hrun'
  exact ⟨hinserted, hp, m', n', t', hm', hrun'⟩

end Machine
end IPPcode24
