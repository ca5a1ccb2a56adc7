import IPPcode24.Proofs.Mirror
import Mathlib.Logic.Equiv.Basic

/-!
# Names do not matter

A program with other names does the same as before under the other names.  Variables and labels are
renamed apart from each other: neither is ever taken for the other.

* `Machine.find?_rename`    a label is found under its new name where it was
* `State.Shadows w s s'`    `s'` is `s` with other names
* `Machine.step_shadows`    **one step keeps this, and fails for the same cause or not at all**

Main statement, `Machine.run_rename`: this holds after any number of steps.
-/

namespace IPPcode24

theorem Instr.label_of_rename (ρ : Renaming) (i : Instr) (name : String)
    (h : i.rename ρ = .label name) : ∃ old, i = .label old ∧ ρ.label old = name := by
  cases i with
  | label old => exact ⟨old, rfl, by cases h; rfl⟩
  | _ => cases h

structure State.Shadows (w : Mirror) (s s' : State) : Prop where
  mirrors : s.Mirrors w s'
  pc : s'.pc = s.pc
  executed : s'.executed = s.executed

namespace Machine

section
variable {m m' : Machine} {ρ : Renaming} (hm : m'.program = m.program.rename ρ)
include hm

theorem instr?_rename (i : Nat) : m'.instr? i = (m.instr? i).map (Instr.rename ρ) := by
  rw [instr?, instr?, hm, Program.get?_rename, Option.map_map, Option.map_map]
  rfl

/-- a label is found under its new name where it was -/
theorem find?_rename (hl : Set.InjOn ρ.label m.program.labelNames) (name : String)
    (hname : name ∈ m.program.labelNames) :
    m'.labels.find? (ρ.label name) = m.labels.find? name := by
  refine Option.ext fun i => ?_
  rw [find?_label, find?_label, instr?_rename hm, Option.map_eq_some_iff]
  constructor
  · rintro ⟨x, hx, hlabel⟩
    obtain ⟨old, rfl, hold⟩ := x.label_of_rename ρ _ hlabel
    have hmem : old ∈ m.program.labelNames :=
      ⟨_, m.mem_instrs_of_instr? i _ hx, List.mem_cons_self⟩
    rwa [← hl hmem hname hold]
  · exact fun hi => ⟨.label name, hi, rfl⟩

/-- **A step with other names does the same, and fails for the same cause or not at all.** -/
theorem step_shadows (hv : Set.InjOn ρ.var m.program.variableNames)
    (hl : Set.InjOn ρ.label m.program.labelNames) (s s' : State)
    (h : s.Shadows ⟨ρ, _, hv, id, id⟩ s') :
    (m.step s).state.Shadows ⟨ρ, _, hv, id, id⟩ (m'.step s').state ∧
      (m'.step s').fault = (m.step s).fault.map (Fault.rename ρ) := by
  have hstatus := h.mirrors.status
  cases hs : s.status with
  | halted code =>
    rw [m.step_of_halted s code hs, m'.step_of_halted s' code (hstatus.trans hs)]
    exact ⟨h, rfl⟩
  | running =>
    have hget : m'.program.get? s'.pc = (m.program.get? s.pc).map (Record.rename ρ) := by
      rw [hm, h.pc, Program.get?_rename]
    cases hr : m.program.get? s.pc with
    | none =>
      rw [hr] at hget
      rw [m.step_of_end s hs hr, m'.step_of_end s' (hstatus.trans hs) hget]
      exact ⟨⟨h.mirrors.halt, h.pc, h.executed⟩, rfl⟩
    | some r =>
      rw [hr] at hget
      have hlabels : ∀ name ∈ m.program.labelNames,
          m'.labels.find? (ρ.label name) = (m.labels.find? name).map id := by
        intro name hname
        rw [find?_rename hm hl name hname, Option.map_id, id]
      have hstep := step_mirrors m m' s s' r (r.rename ρ) h.mirrors hs hr hget rfl Set.Subset.rfl
        hlabels (congrArg (· + 1) h.pc)
      have hstate := hstep.state h.mirrors
      generalize m.step s = u, m'.step s' = u' at hstep hstate
      cases hstep with
      | fault o c =>
        refine ⟨⟨hstate, ?_, ?_⟩, ?_⟩
        · exact (s'.emit_pc o).trans (h.pc.trans (s.emit_pc o).symm)
        · exact (s'.emit_executed o).trans (h.executed.trans (s.emit_executed o).symm)
        · rw [h.pc]
          rfl
      | done e f he =>
        refine ⟨⟨hstate, ?_, ?_⟩, rfl⟩
        · show (s'.perform f).pc = (s.perform e).pc
          rw [State.perform_pc, State.perform_pc, h.pc, he.course.eq_of_id rfl rfl]
        · show (s'.perform f).executed = (s.perform e).executed
          rw [State.perform_executed, State.perform_executed, h.executed]

end

/-- **Renaming.**  A program that can be loaded can be loaded with other names for its variables and
its labels, if none are mixed up.  With room for all on standard error, after any number of steps
both are at the same place with the same stacks, input and output, the frames hold the same slots
under the other names, and the next step fails for the same cause, under these names, or not at
all. -/
theorem run_rename (m : Machine) (ρ : Renaming) (hv : Set.InjOn ρ.var m.program.variableNames)
    (hl : Set.InjOn ρ.label m.program.labelNames) :
    ∃ m', load (m.program.rename ρ) = .ok m' ∧
      ∀ (input : Bytes) (stdout : Option Nat) (n : Nat),
        let s := m.after n (State.start input (Sink.new stdout) (Sink.new none))
        let s' := m'.after n (State.start input (Sink.new stdout) (Sink.new none))
        s'.pc = s.pc ∧ s'.executed = s.executed ∧ s'.status = s.status ∧
          s'.memory.calls = s.memory.calls ∧ s'.memory.data = s.memory.data ∧
          s'.memory.input = s.memory.input ∧ s'.stdout = s.stdout ∧
          s.memory.frames.Renamed m.program.variableNames ρ.var s'.memory.frames ∧
          (m'.step s').fault = (m.step s).fault.map (Fault.rename ρ) := by
  obtain ⟨m', hload⟩ := m.exists_load_rename ρ hl
  have hm := (load_eq_ok m' _).mp hload
  refine ⟨m', hload, ?_⟩
  intro input stdout n s s'
  have hshadows : s.Shadows ⟨ρ, _, hv, id, id⟩ s' := by
    induction n with
    | zero => exact ⟨State.mirrors_start _ input stdout, rfl, rfl⟩
    | succ n ih => exact (step_shadows hm hv hl _ _ ih).1
  have hfault := (step_shadows hm hv hl s s' hshadows).2
  obtain ⟨⟨memory, status, stdout, _, _⟩, pc, executed⟩ := hshadows
  refine ⟨pc, executed, status, ?_, memory.data, memory.input, stdout, memory.frames, hfault⟩
  rw [memory.calls, List.map_id]

/-- a variable and a label with one name, which become two, and a label that nothing defines -/
theorem run_rename_swap :
    let m : Machine :=
      ⟨Program.ofInstrs [.defVar ⟨.gf, "a"⟩, .label "a", .jump "b"], ⟨[("a", 1)]⟩, rfl⟩
    let ρ : Renaming := ⟨Equiv.swap "a" "b", Equiv.swap "b" "c"⟩
    Set.InjOn ρ.var m.program.variableNames ∧ Set.InjOn ρ.label m.program.labelNames ∧
      ∃ m', load (m.program.rename ρ) = .ok m' ∧
        let s' := m'.after 2 (State.start [] (Sink.new none) (Sink.new none))
        s'.memory.frames.global.get? "b" = some .uninitialized ∧
          (m'.step s').fault = some ⟨2, .undefinedLabel "c"⟩ := by
  intro m ρ
  have hv : Set.InjOn ρ.var m.program.variableNames := (Equiv.swap "a" "b").injective.injOn
  have hl : Set.InjOn ρ.label m.program.labelNames := (Equiv.swap "b" "c").injective.injOn
  obtain ⟨m', hm', hruns⟩ := m.run_rename ρ hv hl
  obtain ⟨_, _, _, _, _, _, _, hframes, hfault⟩ := hruns [] none 2
  refine ⟨hv, hl, m', hm', (hframes.global.slots _ _).mpr ⟨"a", by decide, by decide⟩, ?_⟩
  have hm : (m.step (m.after 2 (State.start [] (Sink.new none) (Sink.new none)))).fault
      = some ⟨2, .undefinedLabel "b"⟩ := by decide
  rw [hfault, hm]
  decide

end Machine
end IPPcode24
