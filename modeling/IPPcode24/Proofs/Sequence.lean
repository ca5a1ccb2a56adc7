import IPPcode24.Proofs.Control
import IPPcode24.Proofs.Runs

/-!
# One program behind another

A program that other instructions are put behind runs as it does alone, up to its end, and goes on
there with what was put behind it.  Only the labels are common to both: the first uses its own.

* `Instr.effect_congr`         an effect looks up the label of its instruction, and no other
* `Program.Begins q p rs`      the records of `q` are those of `p` and then `rs`, and `p` uses no
                               label that only `rs` define
* `Program.Begins.step_eq`     **before the end of `p` a step is one of `p` alone**

Main statement, `Machine.run_append`: runs of the whole, told by those of its first part.
-/

namespace IPPcode24

/-- an effect looks up the label of its instruction, and no other -/
theorem Instr.effect_congr (t t' : Labels) (s : State) (order : Nat) (i : Instr)
    (h : ∀ name, i.destination? = some name → t'.find? name = t.find? name) :
    i.effect t' s order = i.effect t s order := by
  have htarget : ∀ name, i.destination? = some name → t'.target name = t.target name := by
    intro name hi
    rw [Labels.target, Labels.target, h name hi]
  cases i with
  | call name => rw [effect, effect, htarget name rfl]
  | jump name => rw [effect, effect, htarget name rfl]
  | jumpIf verdict name a b => rw [effect, effect, htarget name rfl]
  | _ => rfl

/-- a step after which the run goes on is at an instruction -/
theorem Machine.lt_size_of_step (m : Machine) (s u : State) (h : m.step s = ⟨u, none⟩)
    (hu : u.status = .running) : s.pc < m.program.size := by
  have hs := m.stepTo_step s
  rw [h] at hs
  cases hs with
  | rest code hs => rw [hs] at hu; cases hu
  | halt hs hr => cases hu
  | done r e hs hr he ho => exact m.lt_size_of_instr? _ _ (m.instr?_of_get? _ r hr)

namespace Program

theorem get?_eq_getElem? (p : Program) (i : Nat) : p.get? i = p.records.toList[i]? :=
  Array.getElem?_toList.symm

/-- `q` consists of the records of `p` and then `rs`, and `p` uses none of the labels that only `rs`
define -/
structure Begins (q p : Program) (rs : List Record) : Prop where
  records : q.records.toList = p.records.toList ++ rs
  labels : ∀ i ∈ p.instrs, ∀ name, Operand.label name ∈ i.operands →
    Instr.label name ∈ rs.map Record.instr → Instr.label name ∈ p.instrs

namespace Begins

section
variable {q p : Program} {rs : List Record} (h : q.Begins p rs)
include h

theorem instrs_eq : q.instrs = p.instrs ++ rs.map Record.instr := by
  rw [instrs, h.records, List.map_append]
  rfl

theorem get?_of_lt (i : Nat) (hi : i < p.size) : q.get? i = p.get? i := by
  rw [get?_eq_getElem?, get?_eq_getElem?, h.records]
  exact List.getElem?_append_left (by rwa [Array.length_toList])

theorem get?_size_add (i : Nat) : q.get? (p.size + i) = rs[i]? := by
  rw [get?_eq_getElem?, h.records, size, ← Array.length_toList,
    List.getElem?_append_right (Nat.le_add_right _ _), Nat.add_sub_cancel_left]

end

open Machine

variable {m a : Machine} {p : Program} {rs : List Record} (h : m.program.Begins p rs)
  (ha : a.program = p)
include h ha

theorem instr?_of_lt (i : Nat) (hi : i < p.size) : m.instr? i = a.instr? i := by
  rw [Machine.instr?, Machine.instr?, h.get?_of_lt i hi, ha]

/-- what the first part uses is found where it is found in it alone -/
theorem find?_eq (i : Instr) (hi : i ∈ p.instrs) (name : String)
    (hname : i.destination? = some name) : m.labels.find? name = a.labels.find? name := by
  have hoperand := i.mem_operands_of_destination? name hname
  have hfrom : ∀ j, a.instr? j = some (.label name) → m.instr? j = some (.label name) := by
    intro j hj
    have hlt := a.lt_size_of_instr? j _ hj
    rw [ha] at hlt
    rw [h.instr?_of_lt ha j hlt, hj]
  refine Option.ext fun j => ?_
  rw [find?_label, find?_label]
  refine ⟨fun hj => ?_, hfrom j⟩
  have hmem := m.mem_instrs_of_instr? j _ hj
  rw [h.instrs_eq, List.mem_append] at hmem
  obtain ⟨k, hk⟩ := List.mem_iff_getElem?.mp (hmem.elim id (h.labels i hi name hoperand))
  rw [← ha, ← instr?_eq_getElem?] at hk
  rw [m.label_unique name j k hj (hfrom k hk), hk]

/-- **Before the end of the first part a step is one of that part alone.** -/
theorem step_eq (s : State) (hpc : s.pc < p.size) : m.step s = a.step s := by
  cases hs : s.status with
  | halted code => rw [m.step_of_halted s code hs, a.step_of_halted s code hs]
  | running =>
    obtain ⟨r, hr⟩ : ∃ r, p.get? s.pc = some r := ⟨_, Array.getElem?_eq_getElem hpc⟩
    have hm : m.program.get? s.pc = some r := (h.get?_of_lt s.pc hpc).trans hr
    rw [← ha] at hr
    have hmem := a.mem_instrs_of_instr? s.pc _ (a.instr?_of_get? s.pc r hr)
    rw [ha] at hmem
    rw [m.step_of_get? s r hs hm, a.step_of_get? s r hs hr,
      Instr.effect_congr a.labels m.labels s _ _ fun name hn => h.find?_eq ha _ hmem name hn]

/-- an unfinished run of the first part alone is one of the whole -/
theorem run_of_unfinished (n : Nat) (s t : State) (hrun : a.run n s = (none, t)) :
    m.run n s = (none, t) := by
  induction n generalizing s with
  | zero => exact hrun
  | succ n ih =>
    obtain ⟨u, hstep, hu, hrun⟩ := a.unfinished_succ n s t hrun
    have hpc : s.pc < p.size := ha ▸ a.lt_size_of_step s u hstep hu
    rw [m.run_succ_of_running n s u ((h.step_eq ha s hpc).trans hstep) hu]
    exact ih u hrun

/-- an outcome within the first part is one of the whole -/
theorem run_of_finished (n : Nat) (s t : State) (o : Outcome) (hrun : a.run n s = (some o, t))
    (hpc : t.pc < p.size) : m.run n s = (some o, t) := by
  obtain ⟨k, u, hk, hu, hlast⟩ := a.exists_last_step n s t o hrun
  rw [a.pc_of_last_step u t o hlast] at hpc
  have hstep : m.run 1 u = (some o, t) := by
    rw [← hlast, Machine.run, Machine.run, h.step_eq ha u hpc]
    rfl
  obtain ⟨d, rfl⟩ := Nat.exists_eq_add_of_lt hk
  have hgoes := m.run_add_of_unfinished k s u (d + 1) (h.run_of_unfinished ha k s u hu)
  rw [Nat.add_assoc, hgoes, Nat.add_comm]
  exact m.run_add_of_finished 1 u t d o hstep

/-- at its end the first part alone halts, and the whole is still running -/
theorem run_of_end (n : Nat) (s t : State) (o : Outcome) (hs : s.status = .running)
    (hcontrol : a.Controlled s) (hrun : a.run n s = (some o, t)) (hpc : p.size ≤ t.pc) :
    o = .exit 0 ∧ t.pc = p.size ∧ ∃ k < n, a.run k s = (none, { t with status := .running }) ∧
      m.run k s = (none, { t with status := .running }) := by
  obtain ⟨k, u, hk, hu, hlast⟩ := a.exists_last_step n s t o hrun
  have hpc' : t.pc = u.pc := a.pc_of_last_step u t o hlast
  have hrunning := a.running_of_unfinished k s u hs hu
  have hend : u.pc = p.size := by
    have hle := (a.controlled_after s hcontrol k).pc_le
    rw [a.after_of_unfinished k s u hu, ha] at hle
    omega
  have hget : a.program.get? u.pc = none := by
    rw [ha, hend]
    exact Array.getElem?_eq_none (Nat.le_refl _)
  rw [a.run_succ_of_halted 0 u _ 0 (a.step_of_end u hrunning hget) rfl] at hlast
  cases hlast
  have hsame : { { u with status := .halted 0 } with status := .running } = u := by
    rw [← hrunning]
  refine ⟨rfl, hend, k, hk, ?_⟩
  rw [hsame]
  exact ⟨hu, h.run_of_unfinished ha k s u hu⟩

end Begins
end Program

namespace Machine

/-- **Sequential composition.**  Let a program begin with `p` and use its labels for itself only.
Where no label is defined twice both can be loaded.  A run of the whole is one of `p` alone for as
long as that is unfinished, and has the outcome of `p` if that is a fault or the code of an `EXIT`.
Where `p` alone comes to its end and halts with 0, the run is in the same state, still running, and
goes on there with the first of the records behind `p`. -/
theorem run_append (q p : Program) (rs : List Record) (h : q.Begins p rs)
    (hq : (q.instrs.filterMap Instr.label?).Nodup) :
    ∃ m a, load q = .ok m ∧ load p = .ok a ∧
      ∀ (input : Bytes) (stdout stderr : Option Nat) (n : Nat),
        let start := State.start input (Sink.new stdout) (Sink.new stderr)
        (∀ s, a.run n start = (none, s) → m.run n start = (none, s)) ∧
        (∀ o s, a.run n start = (some o, s) → s.pc < p.size → m.run n start = (some o, s)) ∧
        (∀ o s, a.run n start = (some o, s) → p.size ≤ s.pc →
          o = .exit 0 ∧ s.pc = p.size ∧ m.program.get? s.pc = rs.head? ∧
            ∃ k < n, a.run k start = (none, { s with status := .running }) ∧
              ∀ j, m.run (k + j) start = m.run j { s with status := .running }) := by
  obtain ⟨m, hm⟩ := (exists_load_iff q).mpr hq
  rw [h.instrs_eq, List.filterMap_append] at hq
  obtain ⟨a, ha⟩ := (exists_load_iff p).mpr hq.of_append_left
  rw [← (load_eq_ok m q).mp hm] at h
  have hp := (load_eq_ok a p).mp ha
  refine ⟨m, a, hm, ha, ?_⟩
  intro input stdout stderr n start
  refine ⟨fun s => h.run_of_unfinished hp n start s, fun o s => h.run_of_finished hp n start s o,
    fun o s hrun hpc => ?_⟩
  obtain ⟨ho, hend, k, hk, hu, hmk⟩ :=
    h.run_of_end hp n start s o rfl (a.controlled_start _ _ _) hrun hpc
  refine ⟨ho, hend, ?_, k, hk, hu, fun j => m.run_add_of_unfinished k start _ j hmk⟩
  rw [hend, List.head?_eq_getElem?]
  exact h.get?_size_add 0

/-- the function of `callMachine` returns to what is behind the program -/
theorem run_append_call :
    let p := callMachine.program
    let rs : List Record := [⟨6, .label "q"⟩, ⟨7, .exit (.literal (.int 3))⟩]
    let q := Program.ofInstrs (p.instrs ++ rs.map Record.instr)
    q.Begins p rs ∧ (q.instrs.filterMap Instr.label?).Nodup ∧
      ∃ m s k, load q = .ok m ∧ m.program.get? 5 = some ⟨6, .label "q"⟩ ∧ s.pc = 5 ∧
        ∀ j, m.run (k + j) (State.start [] (Sink.new none) (Sink.new none)) = m.run j s := by
  intro p rs q
  have hq : (q.instrs.filterMap Instr.label?).Nodup := by decide
  have hbegins : q.Begins p rs := by
    refine ⟨rfl, fun i hi name hname hmem => ?_⟩
    rw [show name = "q" by simpa [rs] using hmem] at hname
    exact absurd hname (by revert i; decide)
  obtain ⟨m, a, hm, ha, hruns⟩ := run_append q p rs hbegins hq
  cases ((load_eq_ok callMachine p).mpr rfl).symm.trans ha
  obtain ⟨s, hs, hpc⟩ : ∃ s, callMachine.run 6 (State.start [] (Sink.new none) (Sink.new none))
      = (some (.exit 0), s) ∧ s.pc = 5 := ⟨_, rfl, by decide⟩
  obtain ⟨_, _, hend⟩ := hruns [] none none 6
  obtain ⟨_, _, hget, k, _, _, hgoes⟩ := hend (.exit 0) s hs (hpc ▸ Nat.le_refl 5)
  rw [hpc] at hget
  exact ⟨hbegins, hq, m, { s with status := .running }, k, hm, hget, hpc, hgoes⟩

end Machine
end IPPcode24
