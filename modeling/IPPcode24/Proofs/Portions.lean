import IPPcode24.Command
import IPPcode24.Proofs.Limits
import IPPcode24.Proofs.Runs

/-!
# Output that is handed on in portions

While a program runs its output is handed on from time to time, and the channels are emptied.  That
makes no difference to the run, so with what its end hands on nothing is lost and nothing doubled.

* `Sink.behind b k`, `State.behind pre s`   with these bytes before those on the channels
* `Machine.step_behind`, `run_behind`       **what is on the channels makes no difference to a run**
* `Machine.turns_eq`                        the portions of a run, put together

Main statement, `Command.deliver_eq_answer`.
-/

namespace IPPcode24

/-! ## one channel -/

namespace Sink

def behind (b : Bytes) (k : Sink) : Sink := { k with written := b.toArray ++ k.written }

variable (k : Sink) (b : Bytes)

theorem bytes_behind : (k.behind b).bytes = b ++ k.bytes := by
  rw [behind, bytes, Array.toList_append, bytes]

theorem push_behind (h : k.limit = none) (x : Bytes) :
    (k.behind b).push x = (k.push x).behind b := by
  have hb : (k.behind b).limit = none := h
  refine eq_of_bytes _ _ rfl ?_
  rw [bytes_push_of_free _ _ hb, bytes_behind, bytes_behind, bytes_push_of_free _ _ h,
    List.append_assoc]

/-- a portion and what is left of the sink make it up -/
theorem behind_portion (size : Nat) : (k.portion size).2.behind (k.portion size).1 = k := by
  rw [portion]
  split
  · exact eq_of_bytes _ _ rfl (bytes_behind _ _)
  · exact eq_of_bytes _ _ rfl ((bytes_behind _ _).trans (List.append_nil _))

theorem limit_portion (size : Nat) : (k.portion size).2.limit = k.limit := by
  rw [portion]
  split
  · rfl
  · rfl

end Sink

/-! ## both channels -/

namespace State

def behind (pre : Channel → Bytes) (s : State) : State := s.mapSinks fun c k => k.behind (pre c)

variable (pre : Channel → Bytes) (s : State) (hs : s.IsFree)
include hs

theorem IsFree.behind : (s.behind pre).IsFree := by
  intro c
  rw [State.behind, sink_mapSinks]
  exact hs c

theorem emit_behind (o : Option (Channel × String)) :
    (s.behind pre).emit o = (s.emit o).behind pre := by
  rw [emit_eq_mapSinks, emit_eq_mapSinks, behind, behind, mapSinks_mapSinks, mapSinks_mapSinks]
  exact s.mapSinks_congr _ _ fun c => (s.sink c).push_behind _ (hs c) _

end State

/-! ## steps and runs -/

theorem Response.ofOutcome_behind (s : State) (pre : Channel → Bytes) (o : Outcome) :
    ofOutcome (s.behind pre) o =
      ⟨(ofOutcome s o).exit, pre .stdout ++ (ofOutcome s o).stdout,
        pre .stderr ++ (ofOutcome s o).stderr⟩ := by
  have hbytes : ∀ c, ((s.behind pre).sink c).bytes = pre c ++ (s.sink c).bytes := fun c => by
    rw [State.behind, State.sink_mapSinks, Sink.bytes_behind]
  have hout : (s.behind pre).stdout.bytes = _ := hbytes .stdout
  have herr : (s.behind pre).stderr.bytes = _ := hbytes .stderr
  cases o with
  | exit code =>
    rw [ofOutcome, hout, herr]
    rfl
  | fault f =>
    rw [ofOutcome, hout, herr, List.append_assoc]
    rfl

namespace Machine

variable (m : Machine) (pre : Channel → Bytes) (s : State)

theorem isFree_step (hs : s.IsFree) : (m.step s).state.IsFree := m.isFree_after s hs 1

/-- **What is on the channels makes no difference to a step.** -/
theorem step_behind (hs : s.IsFree) :
    m.step (s.behind pre) = ⟨(m.step s).state.behind pre, (m.step s).fault⟩ := by
  refine m.step_mapSinks s hs _ fun e _ => ⟨?_, s.emit_behind pre hs e.output⟩
  exact State.IsFree.hasRoom _ e.output (State.IsFree.behind pre s hs)

/-- **Nor does it to a run.** -/
theorem run_behind (hs : s.IsFree) (n : Nat) :
    m.run n (s.behind pre) = ((m.run n s).1, (m.run n s).2.behind pre) := by
  induction n generalizing s with
  | zero => rfl
  | succ n ih =>
    have hnext := ih (m.step s).state (m.isFree_step s hs)
    have hstatus : ((m.step s).state.behind pre).status = (m.step s).state.status := rfl
    rw [run, run, m.step_behind pre s hs]
    dsimp only
    rw [hstatus]
    cases (m.step s).fault with
    | some f => rfl
    | none =>
      cases (m.step s).state.status with
      | halted code => rfl
      | running => exact hnext

theorem isFree_of_unfinished (hs : s.IsFree) (n : Nat) (t : State) (h : m.run n s = (none, t)) :
    t.IsFree := by
  rw [← m.after_of_unfinished n s t h]
  exact m.isFree_after s hs n

/-! ## portions -/

/-- a turn hands on nothing but what it takes off the channels -/
theorem turn_of_unfinished (hs : s.IsFree) (t : State) (h : m.run 1 s = (none, t)) :
    ∃ pre u, m.turn s = .next (pre .stdout) (pre .stderr) u ∧ u.IsFree ∧ u.behind pre = t := by
  have ht : t.IsFree := m.isFree_of_unfinished s hs 1 t h
  refine ⟨fun c => ((t.sink c).portion c.portionSize).1,
    t.mapSinks fun c k => (k.portion c.portionSize).2, ?_, fun c => ?_, ?_⟩
  · rw [turn, h]
    rfl
  · rw [State.sink_mapSinks, Sink.limit_portion]
    exact ht c
  · rw [State.behind, State.mapSinks_mapSinks]
    exact t.mapSinks_congr _ (fun _ k => k) fun c => (t.sink c).behind_portion c.portionSize

/-- **The portions of a run make up its response.** -/
theorem turns_eq (hs : s.IsFree) (n : Nat) :
    m.turns n s = (m.run n s).1.map (Response.ofOutcome (m.run n s).2) := by
  induction n generalizing s with
  | zero => rfl
  | succ n ih =>
    rw [Nat.add_comm n 1]
    cases h : m.run 1 s with
    | mk o t =>
      cases o with
      | some o =>
        rw [m.run_add_of_finished 1 s t n o h, Nat.add_comm 1 n, turns, turn, h]
        rfl
      | none =>
        obtain ⟨pre, u, hturn, hu, hbehind⟩ := m.turn_of_unfinished s hs t h
        rw [m.run_add_of_unfinished 1 s t n h, ← hbehind, m.run_behind pre u hu,
          Nat.add_comm 1 n, turns, hturn]
        dsimp only
        rw [ih u hu, Option.map_map]
        exact congrArg (fun f => (m.run n u).1.map f)
          (funext fun o => (Response.ofOutcome_behind _ pre o).symm)

end Machine

/-! ## responses -/

theorem Command.isFree_of_prepare (c : Command) (files : String → File) (stdin : Bytes) (m : Machine)
    (start : State) (h : c.prepare files stdin = .ok (m, start)) : start.IsFree := by
  cases c with
  | run source input =>
    obtain ⟨p, _, h⟩ := (bind_eq_ok _ _ _).mp h
    obtain ⟨b, _, h⟩ := (bind_eq_ok _ _ _).mp h
    cases hm : Machine.load p with
    | error f =>
      simp only [hm] at h
      cases h
    | ok m' =>
      simp only [hm] at h
      cases h
      exact State.isFree_start b
  | check source => cases h
  | version => cases h

/-- **Nothing is lost and nothing doubled.**  What a command hands on while it runs and at its end
makes up the response that it has without handing anything on before. -/
theorem Command.deliver_eq_answer (n : Nat) (files : String → File) (stdin : Bytes) (c : Command) :
    c.deliver n files stdin = c.answer n files stdin := by
  rw [deliver, answer]
  cases hc : c.prepare files stdin with
  | error r => rfl
  | ok p =>
    obtain ⟨m, start⟩ := p
    dsimp only
    rw [m.turns_eq start (c.isFree_of_prepare files stdin m start hc) n]
    cases m.run n start with
    | mk o t => cases o <;> rfl

end IPPcode24
