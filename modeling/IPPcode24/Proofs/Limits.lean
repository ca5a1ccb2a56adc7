import IPPcode24.Proofs.Output

/-!
# Channels with a limit

With limits on its channels a machine runs as without, until more is written than a limit allows.
That instruction fails, and the channel holds what there was room for, wherever that cuts the text.

* `Sink.limitTo k l`           the sink with another limit
* `State.limited l s`          the state with limits on its channels
* `State.Within l s`           the channels hold no more than the limits allow
* `Machine.step_mapSinks`      a step with other channels, which take what it writes
* `Machine.step_limited`       **a step that stays within the limits is one without them**
* `Machine.step_beyond`        **a step that does not fails, and fills the channel**

Main statement, `Machine.bounded_output`: what channels hold without limits, and runs with them.
-/

namespace IPPcode24

/-! ## one channel -/

def Sink.limitTo (k : Sink) (l : Option Nat) : Sink := { k with limit := l }

namespace Sink

section
variable (k : Sink) (hk : k.limit = none) (l : Option Nat) (b : Bytes)
include hk

theorem bytes_push_limitTo (n : Nat) (hn : k.bytes.length ≤ n) :
    ((k.limitTo (some n)).push b).bytes = (k.push b).bytes.take n := by
  rw [bytes_push, kept_of_limit _ _ n rfl, k.bytes_push_of_free b hk, List.take_append,
    List.take_of_length_le hn]
  rfl

theorem fits_limitTo (hl : ∀ n, l = some n → k.bytes.length ≤ n) :
    (k.limitTo l).fits b = true ↔ ∀ n, l = some n → (k.push b).bytes.length ≤ n := by
  rw [fits_iff, k.bytes_push_of_free b hk]
  refine forall_congr' fun n => forall_congr' fun hn => ?_
  rw [List.length_append]
  constructor
  · rintro (rfl | hle)
    · exact hl n hn
    · exact hle
  · exact .inr

theorem push_limitTo (h : (k.limitTo l).fits b = true) :
    (k.limitTo l).push b = (k.push b).limitTo l := by
  refine eq_of_bytes _ _ rfl ?_
  rw [bytes_push, kept_of_fits _ _ h]
  exact (k.bytes_push_of_free b hk).symm

end
end Sink

/-! ## both channels -/

namespace State

def limited (l : Channel → Option Nat) (s : State) : State := s.mapSinks fun c k => k.limitTo (l c)

def Within (l : Channel → Option Nat) (s : State) : Prop :=
  ∀ c n, l c = some n → (s.sink c).bytes.length ≤ n

/-- no channel has a limit -/
def IsFree (s : State) : Prop := ∀ c, (s.sink c).limit = none

theorem isFree_start (input : Bytes) : (start input (Sink.new none) (Sink.new none)).IsFree := by
  intro c
  cases c <;> rfl

variable (l : Channel → Option Nat) (s : State) (o : Option (Channel × String)) (hs : s.IsFree)
include hs

theorem IsFree.hasRoom : s.hasRoom o = true := by
  rw [hasRoom_iff]
  exact fun c => (s.sink c).fits_of_free _ (hs c)

variable (hl : s.Within l)
include hl

theorem hasRoom_limited : (s.limited l).hasRoom o = true ↔ (s.emit o).Within l := by
  rw [hasRoom_iff]
  refine forall_congr' fun c => ?_
  rw [limited, sink_mapSinks, sink_emit]
  exact (s.sink c).fits_limitTo (hs c) (l c) _ (hl c)

theorem emit_limited (h : (s.emit o).Within l) : (s.limited l).emit o = (s.emit o).limited l := by
  have hroom := (s.hasRoom_limited l o hs hl).mpr h
  rw [hasRoom_iff] at hroom
  rw [emit_eq_mapSinks, emit_eq_mapSinks, limited, limited, mapSinks_mapSinks, mapSinks_mapSinks]
  refine s.mapSinks_congr _ _ fun c => ?_
  have hc := hroom c
  rw [limited, sink_mapSinks] at hc
  exact (s.sink c).push_limitTo (hs c) (l c) _ hc

end State

/-! ## steps -/

/-- an instruction does not look at the channels -/
theorem Instr.effect_mapSinks (t : Labels) (s : State) (f : Channel → Sink → Sink) (order : Nat)
    (i : Instr) : i.effect t (s.mapSinks f) order = i.effect t s order := by
  cases i <;> rfl

theorem Instr.effect_limited (t : Labels) (l : Channel → Option Nat) (s : State) (order : Nat)
    (i : Instr) : i.effect t (s.limited l) order = i.effect t s order :=
  i.effect_mapSinks t s _ order

namespace Machine

variable (m : Machine) (l : Channel → Option Nat) (s : State)

/-- a step is the same with other channels, if these take what it writes -/
theorem step_mapSinks (hs : s.IsFree) (f : Channel → Sink → Sink)
    (hf : ∀ e, m.step s = ⟨s.perform e, none⟩ → (s.mapSinks f).hasRoom e.output = true ∧
      (s.mapSinks f).emit e.output = (s.emit e.output).mapSinks f) :
    m.step (s.mapSinks f) = ⟨(m.step s).state.mapSinks f, (m.step s).fault⟩ := by
  have hstep := m.stepTo_step s
  generalize m.step s = u at hstep hf ⊢
  cases hstep with
  | rest code hc => exact m.step_of_halted _ code hc
  | halt hc hr => exact m.step_of_end _ hc hr
  | fail r c hc hr he =>
    rw [m.step_of_get? (s.mapSinks f) r hc hr, r.instr.effect_mapSinks, he]
    rfl
  | full r e hc hr he ho =>
    rw [hs.hasRoom] at ho
    cases ho
  | done r e hc hr he ho =>
    obtain ⟨hroom, hemit⟩ := hf e rfl
    rw [m.step_of_get? (s.mapSinks f) r hc hr, r.instr.effect_mapSinks, he, State.finish, hroom,
      if_pos rfl, hemit]
    rfl

section
variable (hs : s.IsFree) (hl : s.Within l)
include hs hl

/-- **A step that stays within the limits is one without them.** -/
theorem step_limited (h : (m.step s).state.Within l) :
    m.step (s.limited l) = ⟨(m.step s).state.limited l, (m.step s).fault⟩ := by
  refine m.step_mapSinks s hs _ fun e he => ?_
  rw [he] at h
  have hemit : (s.emit e.output).Within l := h
  exact ⟨(s.hasRoom_limited l e.output hs hl).mpr hemit, s.emit_limited l e.output hs hl hemit⟩

/-- **A step that does not stay within them fails, and fills the channel.** -/
theorem step_beyond (c : Channel) (n : Nat) (hn : l c = some n)
    (h : n < ((m.step s).state.sink c).bytes.length) :
    (m.step (s.limited l)).fault = some ⟨s.pc, .channelFull⟩ ∧
      ((m.step (s.limited l)).state.sink c).bytes = ((m.step s).state.sink c).bytes.take n := by
  have hbefore : ¬ n < (s.sink c).bytes.length := Nat.not_lt.mpr (hl c n hn)
  have hstep := m.stepTo_step s
  generalize m.step s = u at hstep h ⊢
  cases hstep with
  | rest code hc => exact absurd h hbefore
  | halt hc hr => exact absurd h (by cases c <;> exact hbefore)
  | fail r cause hc hr he => exact absurd h hbefore
  | full r e hc hr he ho =>
    rw [hs.hasRoom] at ho
    cases ho
  | done r e hc hr he ho =>
    have hsink : (s.perform e).sink c = (s.emit e.output).sink c := by cases c <;> rfl
    rw [hsink] at h ⊢
    have hroom : (s.limited l).hasRoom e.output = false := by
      rw [Bool.eq_false_iff, Ne, s.hasRoom_limited l e.output hs hl]
      exact fun hwithin => absurd h (Nat.not_lt.mpr (hwithin c n hn))
    rw [m.step_of_get? (s.limited l) r hc hr, r.instr.effect_limited, he, State.finish, hroom,
      if_neg Bool.false_ne_true, Stepped.ofResult, State.emit_pc]
    refine ⟨rfl, ?_⟩
    rw [State.sink_emit, State.sink_emit, State.limited, State.sink_mapSinks, hn]
    exact (s.sink c).bytes_push_limitTo (hs c) _ n (hl c n hn)

end

/-! ## runs -/

theorem isFree_after (hs : s.IsFree) (n : Nat) : (m.after n s).IsFree :=
  fun c => (m.limit_after s c n).trans (hs c)

/-- what is written stays written -/
theorem length_bytes_le (hs : s.IsFree) (c : Channel) :
    (s.sink c).bytes.length ≤ ((m.step s).state.sink c).bytes.length := by
  rw [m.sink_step s c (hs c), (s.sink c).bytes_push_of_free _ (hs c), List.length_append]
  exact Nat.le_add_right _ _

theorem after_limited (hs : s.IsFree) (n : Nat) (h : (m.after n s).Within l) :
    m.after n (s.limited l) = (m.after n s).limited l := by
  induction n with
  | zero => rfl
  | succ n ih =>
    have hn := m.isFree_after s hs n
    have hwithin : (m.after n s).Within l := fun c k hk =>
      Nat.le_trans (m.length_bytes_le _ hn c) (h c k hk)
    rw [after_succ, ih hwithin, m.step_limited l _ hn hwithin h, after_succ]

/-- **Channels with limits agree with channels without.**  Without limits, after any number of steps
a channel holds the texts that the instructions executed have for it, one after the other.  With
limits the state is the same, and the next step fails alike or not at all, for as long as the
channels without limits hold no more than these allow.  The step that would bring one beyond its
limit fails where it is, and leaves on the channel as many of the bytes as the limit allows. -/
theorem bounded_output (input : Bytes) (l : Channel → Option Nat) (n : Nat) :
    let free := fun k => m.after k (State.start input (Sink.new none) (Sink.new none))
    let bounded := fun k =>
      m.after k (State.start input (Sink.new (l .stdout)) (Sink.new (l .stderr)))
    (∀ c, ((free n).sink c).bytes
      = (List.range n).flatMap fun k => utf8 (m.textOn c (free k)).toList) ∧
    ((free n).Within l → bounded n = (free n).limited l) ∧
    ((free n).Within l → (free (n + 1)).Within l →
      (m.step (bounded n)).fault = (m.step (free n)).fault) ∧
    (∀ c limit, (free n).Within l → l c = some limit →
      limit < ((free (n + 1)).sink c).bytes.length →
      (m.step (bounded n)).fault = some ⟨(bounded n).pc, .channelFull⟩ ∧
      ((bounded (n + 1)).sink c).bytes = ((free (n + 1)).sink c).bytes.take limit) := by
  intro free bounded
  have hstart := State.isFree_start input
  have hfree : (free n).IsFree := m.isFree_after _ hstart n
  have hsame : (free n).Within l → bounded n = (free n).limited l := m.after_limited l _ hstart n
  refine ⟨fun c => ?_, hsame, fun hn hnext => ?_, fun c limit hn hc hbeyond => ?_⟩
  · refine (m.bytes_after _ c (hstart c) n).trans ?_
    cases c <;> rfl
  · rw [hsame hn, m.step_limited l _ hfree hn hnext]
  · show _ ∧ ((m.step (bounded n)).state.sink c).bytes = _
    rw [hsame hn]
    exact m.step_beyond l _ hfree hn c limit hc hbeyond

/-- a letter of two bytes fits on standard error, and of a number its sign on standard output -/
theorem bounded_output_sign :
    let m : Machine := ⟨Program.ofInstrs [.print .stderr (.literal (.string "é")),
      .print .stdout (.literal (.int (-12)))], ⟨[]⟩, rfl⟩
    let l : Channel → Option Nat := fun | .stdout => some 1 | .stderr => some 2
    let free := fun k => m.after k (State.start [] (Sink.new none) (Sink.new none))
    let bounded := fun k => m.after k (State.start [] (Sink.new (some 1)) (Sink.new (some 2)))
    (free 1).Within l ∧ 1 < ((free 2).sink .stdout).bytes.length ∧ bounded 1 = (free 1).limited l ∧
      (m.step (bounded 1)).fault = some ⟨1, .channelFull⟩ ∧
      ((bounded 2).sink .stdout).bytes = [0x2D] := by
  intro m l free bounded
  have hwithin : (free 1).Within l := by
    intro c n hn
    cases c with
    | stdout => exact Nat.zero_le n
    | stderr =>
      cases hn
      decide
  have hlong : 1 < ((free 2).sink .stdout).bytes.length := by decide
  obtain ⟨_, hsame, _, hbeyond⟩ := m.bounded_output [] l 1
  obtain ⟨hfault, hbytes⟩ := hbeyond .stdout 1 hwithin rfl hlong
  have hcut : ((free 2).sink .stdout).bytes.take 1 = [0x2D] := by decide
  exact ⟨hwithin, hlong, hsame hwithin, hfault, hbytes.trans hcut⟩

end Machine
end IPPcode24
