import IPPcode24.Proofs.Image
import IPPcode24.Proofs.Labels
import IPPcode24.Proofs.Output
import IPPcode24.Proofs.Runs
import Mathlib.Data.List.Nodup
import Mathlib.Data.Nat.Basic
import Mathlib.Order.Monotone.Defs

/-!
# The numbers of the records

A program keeps its records in the order of their numbers, and a run counts in places and not in
numbers.  So it does not matter in what order the records come, nor which numbers they have as long
as these are in the same order.  Only the report of BREAK tells the number.

* `Record.renumber φ r`          the record with another number
* `Program.sorted_eq_of_perm`    **sorting gives the only increasing list of these records**
* `Program.Renumbered φ p q`     `q` is `p` with other numbers
* `Machine.step_renumbered`      **one step is the same but for what is on standard error**

Main statement, `Machine.run_renumbered`.
-/

namespace IPPcode24

def Record.renumber (φ : Nat → Nat) (r : Record) : Record := { r with order := φ r.order }

namespace Program

/-! ## sorting -/

theorem perm_sorted (rs : List Record) : (sorted rs).Perm rs := List.mergeSort_perm _ _

/-- with distinct numbers, the sorted records are increasing -/
theorem increasing_sorted (rs : List Record) (h : (rs.map Record.order).Nodup) :
    (sorted rs).Pairwise fun a b => a.order < b.order := by
  have hnodup : ((sorted rs).map Record.order).Nodup :=
    ((perm_sorted rs).map Record.order).nodup_iff.mpr h
  refine ((pairwise_sorted rs).and (List.pairwise_map.mp hnodup)).imp ?_
  rintro a b ⟨hle, hne⟩
  exact Nat.lt_of_le_of_ne hle hne

/-- **Sorting gives the only increasing list of these records.** -/
theorem sorted_eq_of_perm (rs qs : List Record) (hperm : rs.Perm qs)
    (hq : qs.Pairwise fun a b => a.order < b.order) : sorted rs = qs := by
  have hsame : (sorted rs).Perm qs := (perm_sorted rs).trans hperm
  have hnodup : (rs.map Record.order).Nodup := by
    rw [(hperm.map Record.order).nodup_iff]
    exact List.pairwise_map.mpr (hq.imp Nat.ne_of_lt)
  refine hsame.eq_of_pairwise (fun a b _ _ hab hba => ?_) (increasing_sorted rs hnodup) hq
  exact absurd hab (Nat.lt_asymm hba)

/-! ## other numbers -/

/-- the same instructions in the same order, with the numbers that `φ` gives -/
def Renumbered (φ : Nat → Nat) (p q : Program) : Prop :=
  q.records.toList = p.records.toList.map (Record.renumber φ)

section
variable {φ : Nat → Nat} {p q : Program} (h : p.Renumbered φ q)
include h

theorem Renumbered.instrs : q.instrs = p.instrs := by
  rw [Program.instrs, h, List.map_map]
  rfl

theorem Renumbered.get? (i : Nat) : q.get? i = (p.get? i).map (Record.renumber φ) := by
  rw [Program.get?, Program.get?, ← Array.getElem?_toList, h, List.getElem?_map,
    Array.getElem?_toList]

theorem Renumbered.labels : q.labels = p.labels := by
  rw [Program.labels, Program.labels, h.instrs]

end

/-- **Records come in any order, and with any numbers that are in this order.** -/
theorem exists_renumbered (rs rs' : List Record) (φ : Nat → Nat)
    (hrs : (rs.map Record.order).Nodup) (hφ : StrictMonoOn φ {o | o ∈ rs.map Record.order})
    (hperm : rs'.Perm (rs.map (Record.renumber φ))) :
    ∃ p q, ofRecords rs = .ok p ∧ ofRecords rs' = .ok q ∧ p.Renumbered φ q := by
  have hp := increasing_sorted rs hrs
  have hmem : ∀ r ∈ sorted rs, r.order ∈ rs.map Record.order := fun r hr =>
    List.mem_map_of_mem (List.mem_mergeSort.mp hr)
  have hq : ((sorted rs).map (Record.renumber φ)).Pairwise fun a b => a.order < b.order := by
    refine List.pairwise_map.mpr (hp.imp_of_mem fun ha hb hab => ?_)
    exact hφ (hmem _ ha) (hmem _ hb) hab
  have hsorted : sorted rs' = (sorted rs).map (Record.renumber φ) := by
    refine sorted_eq_of_perm rs' _ (hperm.trans ?_) hq
    exact ((perm_sorted rs).map _).symm
  exact ⟨⟨(sorted rs).toArray, hp⟩, ⟨_, hq⟩, (ofRecords_eq_ok rs _).mpr rfl,
    (ofRecords_eq_ok rs' ⟨((sorted rs).map (Record.renumber φ)).toArray, hq⟩).mpr hsorted.symm, rfl⟩

end Program

/-! ## steps -/

/-- BREAK tells its number -/
theorem Instr.effect_brk (t : Labels) (s : State) (order : Nat) : Instr.brk.effect t s order
    = .ok ⟨s.memory, .ahead, some (.stderr, s.report order)⟩ := rfl

/-- and no other instruction does -/
theorem Instr.effect_of_ne_brk (t : Labels) (s : State) (k : Sink) (order order' : Nat) (i : Instr)
    (hi : i ≠ .brk) : i.effect t (s.setSink .stderr k) order' = i.effect t s order := by
  cases i with
  | brk => exact absurd rfl hi
  | _ => rfl

theorem Instr.textOn_of_ne_brk (c : Channel) (s : State) (k : Sink) (order order' : Nat) (i : Instr)
    (hi : i ≠ .brk) : i.textOn c (s.setSink .stderr k) order' = i.textOn c s order := by
  cases i with
  | brk => exact absurd rfl hi
  | _ => rfl

namespace State

theorem fields_of_eq_setSink (s s' : State) (k : Sink) (h : s' = s.setSink .stderr k) :
    s'.pc = s.pc ∧ s'.executed = s.executed ∧ s'.status = s.status ∧ s'.memory = s.memory ∧
      s'.stdout = s.stdout := by
  rw [h]
  exact ⟨rfl, rfl, rfl, rfl, rfl⟩

section
variable (s : State) (k : Sink) (o o' : Option (Channel × String))
  (ho : textFor .stdout o' = textFor .stdout o)
include ho

theorem emit_setSink : (s.setSink .stderr k).emit o'
    = (s.emit o).setSink .stderr (k.push (utf8 (textFor .stderr o').toList)) := by
  rw [emit_eq_mapSinks, emit_eq_mapSinks, mapSinks, mapSinks, ho]
  rfl

theorem hasRoom_setSink (hs : s.stderr.limit = none) (hk : k.limit = none) :
    (s.setSink .stderr k).hasRoom o' = s.hasRoom o := by
  rw [Bool.eq_iff_iff, hasRoom_iff, hasRoom_iff]
  refine forall_congr' fun c => ?_
  cases c with
  | stdout => rw [ho]; rfl
  | stderr => exact iff_of_true (k.fits_of_free _ hk) (s.stderr.fits_of_free _ hs)

/-- what differs only in the text for standard error ends in states that differ only there -/
theorem finish_setSink (hs : s.stderr.limit = none) (hk : k.limit = none) (m : Memory)
    (c : Course) : ∃ k', Stepped.ofResult ((s.setSink .stderr k).finish (.ok ⟨m, c, o'⟩)) =
      ⟨(Stepped.ofResult (s.finish (.ok ⟨m, c, o⟩))).state.setSink .stderr k',
        (Stepped.ofResult (s.finish (.ok ⟨m, c, o⟩))).fault⟩ := by
  refine ⟨k.push (utf8 (textFor .stderr o').toList), ?_⟩
  rw [finish, finish, s.hasRoom_setSink k o o' ho hs hk, s.emit_setSink k o o' ho]
  cases s.hasRoom o <;> rfl

end
end State

namespace Machine

section
variable {m m' : Machine} {φ : Nat → Nat} (hm : m.program.Renumbered φ m'.program)
include hm

theorem labels_renumbered : m'.labels = m.labels := by
  have h := hm.labels
  rw [m.labels_eq, m'.labels_eq] at h
  exact Except.ok.inj h

/-- **A step with other numbers is the same but for what is on standard error.** -/
theorem step_renumbered (s : State) (k : Sink) (hs : s.stderr.limit = none) (hk : k.limit = none) :
    ∃ k', m'.step (s.setSink .stderr k)
      = ⟨(m.step s).state.setSink .stderr k', (m.step s).fault⟩ := by
  cases hstatus : s.status with
  | halted code =>
    rw [m.step_of_halted s code hstatus, m'.step_of_halted (s.setSink .stderr k) code hstatus]
    exact ⟨k, rfl⟩
  | running =>
    have hget := hm.get? s.pc
    cases hr : m.program.get? s.pc with
    | none =>
      rw [hr] at hget
      rw [m.step_of_end s hstatus hr, m'.step_of_end (s.setSink .stderr k) hstatus hget]
      exact ⟨k, rfl⟩
    | some r =>
      rw [hr] at hget
      rw [m.step_of_get? s r hstatus hr,
        m'.step_of_get? (s.setSink .stderr k) (r.renumber φ) hstatus hget, labels_renumbered hm]
      by_cases hi : r.instr = .brk
      · have hnone : ∀ text, textFor .stdout (some (.stderr, text)) = "" := fun _ => rfl
        rw [Record.renumber, hi, Instr.effect_brk, Instr.effect_brk]
        refine s.finish_setSink k _ _ ?_ hs hk s.memory .ahead
        rw [hnone, hnone]
      · rw [Record.renumber, r.instr.effect_of_ne_brk _ s k r.order (φ r.order) hi]
        cases r.instr.effect m.labels s r.order with
        | error c => exact ⟨k, rfl⟩
        | ok e => exact s.finish_setSink k _ _ rfl hs hk e.memory e.course

theorem executes_renumbered (s : State) (k : Sink) (hs : s.stderr.limit = none)
    (hk : k.limit = none) : m'.executes (s.setSink .stderr k) = m.executes s := by
  have hget : (m'.program.get? s.pc).isSome = (m.program.get? s.pc).isSome := by
    rw [hm.get?, Option.isSome_map]
  obtain ⟨k', hstep⟩ := step_renumbered hm s k hs hk
  rw [executes, executes, hstep, ← hget]
  rfl

/-- the text of a step is the same, or it is a report with another number -/
theorem textOn_renumbered (s : State) (k : Sink) (hs : s.stderr.limit = none)
    (hk : k.limit = none) :
    (m.instr? s.pc ≠ some .brk →
      m'.textOn .stderr (s.setSink .stderr k) = m.textOn .stderr s) ∧
    ∀ r, m.program.get? s.pc = some r → r.instr = .brk → m.executes s = true →
      m.textOn .stderr s = s.report r.order ∧
        m'.textOn .stderr (s.setSink .stderr k) = s.report (φ r.order) := by
  have hexec := executes_renumbered hm s k hs hk
  have hget := hm.get? s.pc
  constructor
  · intro hi
    cases hx : m.executes s with
    | false =>
      rw [m.textOn_of_not_executes s .stderr hx,
        m'.textOn_of_not_executes (s.setSink .stderr k) .stderr (hexec.trans hx)]
    | true =>
      obtain ⟨r, e, hr, _, _⟩ := m.step_of_executes s hx
      rw [hr] at hget
      rw [m.textOn_of_executes s .stderr r hx hr,
        m'.textOn_of_executes (s.setSink .stderr k) .stderr (r.renumber φ) (hexec.trans hx) hget]
      rw [m.instr?_of_get? s.pc r hr, Ne, Option.some.injEq] at hi
      exact r.instr.textOn_of_ne_brk .stderr s k r.order (φ r.order) hi
  · intro r hr hi hx
    rw [hr] at hget
    rw [m.textOn_of_executes s .stderr r hx hr,
      m'.textOn_of_executes (s.setSink .stderr k) .stderr (r.renumber φ) (hexec.trans hx) hget,
      Record.renumber, hi]
    exact ⟨rfl, rfl⟩

/-! ## runs -/

section
variable (s : State) (hs : s.stderr.limit = none) (n : Nat)
include hs

/-- **Steps with other numbers are the same but for what is on standard error.** -/
theorem after_renumbered :
    ∃ k, k.limit = none ∧ m'.after n s = (m.after n s).setSink .stderr k := by
  induction n with
  | zero => exact ⟨s.stderr, hs, rfl⟩
  | succ n ih =>
    obtain ⟨k, hk, hn⟩ := ih
    obtain ⟨k', hstep⟩ := step_renumbered hm _ k ((m.limit_after s .stderr n).trans hs) hk
    have hnext : m'.after (n + 1) s = (m.after (n + 1) s).setSink .stderr k' := by
      rw [after_succ, hn, hstep]
      rfl
    have hlimit := (m'.limit_after s .stderr (n + 1)).trans hs
    rw [hnext] at hlimit
    exact ⟨k', hlimit, hnext⟩

theorem fault_after_renumbered :
    (m'.step (m'.after n s)).fault = (m.step (m.after n s)).fault := by
  obtain ⟨k, hk, hn⟩ := after_renumbered hm s hs n
  obtain ⟨k', hstep⟩ := step_renumbered hm _ k ((m.limit_after s .stderr n).trans hs) hk
  rw [hn, hstep]

theorem outcome_renumbered : (m'.run n s).1 = (m.run n s).1 := by
  refine m.run_fst_eq n s m' s fun j => ⟨fault_after_renumbered hm s hs j, ?_⟩
  obtain ⟨k, _, hstate⟩ := after_renumbered hm s hs (j + 1)
  exact (State.fields_of_eq_setSink _ _ k hstate).2.2.1

end
end

end Machine
end IPPcode24
