import IPPcode24.Proofs.Labels
import Mathlib.Order.Bounds.Basic

/-!
# Labels that are defined again

The table of a program lists the names that its `LABEL` instructions define, in their order.  It is
refused at the first of them whose name has been defined before.

* `Redefines seen is k name`   the instruction `k` defines a name that is in `seen` or that one
                               before it defines
* `firstRedefined_spec`        **the definition that is refused is the first of these**, and none is
                               refused if there are none
* `Program.labels_spec`        so for the table of a program

Main statement, `Program.labels_exact`.
-/

namespace IPPcode24

/-! ## names that were seen -/

/-- the instruction `k` defines a name that is in `seen` or that one before it defines -/
def Redefines (seen : List String) (is : List Instr) (k : Nat) (name : String) : Prop :=
  is[k]? = some (.label name) ∧ (name ∈ seen ∨ ∃ j < k, is[j]? = some (.label name))

section
variable (seen : List String) (x : Instr) (is : List Instr)

theorem redefines_zero (name : String) :
    Redefines seen (x :: is) 0 name ↔ x.label? = some name ∧ name ∈ seen := by
  simp [Redefines, x.label?_eq_some]

/-- behind an instruction the name that it defines has been seen -/
theorem redefines_succ (k : Nat) (name : String) :
    Redefines seen (x :: is) (k + 1) name ↔ Redefines (x.label?.toList ++ seen) is k name := by
  have hbefore : (∃ j < k + 1, (x :: is)[j]? = some (.label name)) ↔
      x.label? = some name ∨ ∃ j < k, is[j]? = some (.label name) := by
    rw [x.label?_eq_some]
    constructor
    · rintro ⟨j, hj, h⟩
      cases j with
      | zero => exact .inl (Option.some.inj h)
      | succ j => exact .inr ⟨j, Nat.lt_of_succ_lt_succ hj, h⟩
    · rintro (h | ⟨j, hj, h⟩)
      · exact ⟨0, Nat.succ_pos k, congrArg some h⟩
      · exact ⟨j + 1, Nat.succ_lt_succ hj, h⟩
  rw [Redefines, Redefines, hbefore, List.getElem?_cons_succ, List.mem_append, Option.mem_toList,
    or_assoc, or_left_comm]

theorem firstRedefined_of_seen (n : Nat) (name : String) (hx : x.label? = some name)
    (hs : name ∈ seen) : firstRedefined seen (definitions n (x :: is)) = some (name, n) := by
  rw [definitions, hx]
  exact if_pos hs

theorem firstRedefined_cons (n : Nat) (h : ∀ name, x.label? = some name → name ∉ seen) :
    firstRedefined seen (definitions n (x :: is))
      = firstRedefined (x.label?.toList ++ seen) (definitions (n + 1) is) := by
  rw [definitions]
  cases hx : x.label? with
  | none => rfl
  | some name => exact if_neg (h name hx)

end

/-- **The definition that is refused is the first of a name that was seen or defined before.** -/
theorem firstRedefined_spec (is : List Instr) (seen : List String) (n : Nat) :
    (firstRedefined seen (definitions n is) = none ∧ ∀ k name, ¬ Redefines seen is k name) ∨
    ∃ k name, firstRedefined seen (definitions n is) = some (name, n + k) ∧
      Redefines seen is k name ∧ ∀ j < k, ∀ other, ¬ Redefines seen is j other := by
  -- the names seen so far and the index of the first instruction both move on
  induction is generalizing seen n with
  | nil => exact .inl ⟨rfl, fun _ _ h => (nomatch h.1)⟩
  | cons x is ih =>
    by_cases hx : ∃ name, x.label? = some name ∧ name ∈ seen
    · obtain ⟨name, hl, hs⟩ := hx
      exact .inr ⟨0, name, firstRedefined_of_seen seen x is n name hl hs,
        (redefines_zero seen x is name).mpr ⟨hl, hs⟩, fun j hj => absurd hj (Nat.not_lt_zero j)⟩
    · have hzero : ∀ other, ¬ Redefines seen (x :: is) 0 other := by
        intro other h
        exact hx ⟨other, (redefines_zero seen x is other).mp h⟩
      rw [firstRedefined_cons seen x is n fun name hl hs => hx ⟨name, hl, hs⟩]
      obtain ⟨hnone, hno⟩ | ⟨k, name, hsome, hk, hleast⟩ := ih (x.label?.toList ++ seen) (n + 1)
      · refine .inl ⟨hnone, fun k name => ?_⟩
        cases k with
        | zero => exact hzero name
        | succ k =>
          rw [redefines_succ]
          exact hno k name
      · have hk := (redefines_succ seen x is k name).mpr hk
        refine .inr ⟨k + 1, name, ?_, hk, fun j hj other => ?_⟩
        · rw [hsome, Nat.add_assoc, Nat.add_comm 1 k]
        · cases j with
          | zero => exact hzero other
          | succ j =>
            rw [redefines_succ]
            exact hleast j (Nat.lt_of_succ_lt_succ hj) other

/-! ## the table of a program -/

namespace Program

/-- the instruction `j` defines a name that one before it defines -/
def Redefinition (p : Program) (name : String) (j : Nat) : Prop :=
  p.instrs[j]? = some (.label name) ∧ ∃ i < j, p.instrs[i]? = some (.label name)

theorem redefines_nil (p : Program) (j : Nat) (name : String) :
    Redefines [] p.instrs j name ↔ p.Redefinition name j := by
  simp [Redefines, Redefinition]

/-- there is a table if no name is defined again, and otherwise the first one is refused -/
theorem labels_spec (p : Program) :
    ((∃ t, p.labels = .ok t) ∧ ∀ name j, ¬ p.Redefinition name j) ∨
    ∃ name j, p.labels = .error ⟨j, .duplicateLabel name⟩ ∧ p.Redefinition name j ∧
      IsLeast {i | ∃ other, p.Redefinition other i} j := by
  rw [labels]
  obtain ⟨hnone, hno⟩ | ⟨k, name, hsome, hk, hleast⟩ := firstRedefined_spec p.instrs [] 0
  · rw [hnone]
    exact .inl ⟨⟨_, rfl⟩, fun name j h => hno j name ((p.redefines_nil j name).mpr h)⟩
  · rw [hsome, Nat.zero_add]
    have hk := (p.redefines_nil k name).mp hk
    refine .inr ⟨name, k, rfl, hk, ⟨name, hk⟩, ?_⟩
    rintro j ⟨other, h⟩
    refine Nat.le_of_not_lt fun hj => hleast j hj other ?_
    exact (p.redefines_nil j other).mpr h

theorem exists_labels_iff (p : Program) : (∃ t, p.labels = .ok t) ↔
    ∀ (name : String) (i j : Nat), p.instrs[i]? = some (.label name) →
      p.instrs[j]? = some (.label name) → i = j := by
  constructor
  · rintro ⟨t, ht⟩ name i j hi hj
    have hunique := (Machine.mk p t ht).label_unique name i j
    rw [Machine.instr?_eq_getElem?, Machine.instr?_eq_getElem?] at hunique
    exact hunique hi hj
  · intro h
    obtain ⟨hok, _⟩ | ⟨name, j, _, ⟨hj, i, hij, hi⟩, _⟩ := p.labels_spec
    · exact hok
    · exact absurd (h name i j hi hj) (Nat.ne_of_lt hij)

theorem labels_eq_error (p : Program) (f : Fault) : p.labels = .error f ↔
    ∃ name, f.cause = .duplicateLabel name ∧ p.instrs[f.index]? = some (.label name) ∧
      IsLeast {j | ∃ other, p.Redefinition other j} f.index := by
  constructor
  · intro h
    obtain ⟨⟨t, ht⟩, _⟩ | ⟨name, j, hj, hname, hleast⟩ := p.labels_spec
    · cases h.symm.trans ht
    · cases h.symm.trans hj
      exact ⟨name, rfl, hname.1, hleast⟩
  · rintro ⟨name, hcause, hlabel, hleast⟩
    obtain ⟨_, hno⟩ | ⟨name', j, hj, hname', hleast'⟩ := p.labels_spec
    · obtain ⟨other, h⟩ := hleast.1
      exact absurd h (hno other f.index)
    · have hindex : f.index = j := hleast.unique hleast'
      have hsame : some (Instr.label name) = some (.label name') := by
        rw [← hlabel, hindex, hname'.1]
      obtain ⟨index, cause⟩ := f
      cases hsame
      cases hindex
      cases hcause
      exact hj

/-- **The table of a program is exactly what its `LABEL` instructions define.**  There is one if no
two of them carry the same name.  A name is then found at the index of the `LABEL` that carries it,
so nothing else defines a name, and there are as many names as `LABEL` instructions.  Otherwise the
first `LABEL` is reported whose name one before it carries. -/
theorem labels_exact (p : Program) :
    ((∃ t, p.labels = .ok t) ↔ ∀ (name : String) (i j : Nat), p.instrs[i]? = some (.label name) →
      p.instrs[j]? = some (.label name) → i = j) ∧
    (∀ t, p.labels = .ok t →
      (∀ name i, t.find? name = some i ↔ p.instrs[i]? = some (.label name)) ∧
      (∀ i x, p.instrs[i]? = some x → x.opcode ≠ .label → ∀ name, t.find? name ≠ some i) ∧
      t.size = p.instrs.countP fun x => x.opcode = .label) ∧
    ∀ f, p.labels = .error f ↔
      ∃ name, f.cause = .duplicateLabel name ∧ p.instrs[f.index]? = some (.label name) ∧
        IsLeast {j | ∃ other, p.instrs[j]? = some (.label other) ∧
          ∃ i < j, p.instrs[i]? = some (.label other)} f.index := by
  refine ⟨p.exists_labels_iff, fun t ht => ?_, p.labels_eq_error⟩
  have hfind : ∀ name i, t.find? name = some i ↔ p.instrs[i]? = some (.label name) := by
    intro name i
    rw [← (Machine.mk p t ht).instr?_eq_getElem?]
    exact (Machine.mk p t ht).find?_label name i
  refine ⟨hfind, fun i x hx hop name h => ?_, p.size_labels t ht⟩
  cases hx.symm.trans ((hfind name i).mp h)
  exact hop rfl

/-- two labels with jumps to them between, and a program in which two names are defined again -/
theorem labels_exact_crossed :
    (∃ t, (ofInstrs [.jump "b", .label "a", .call "a", .label "b"]).labels = .ok t ∧
      t.find? "b" = some 3 ∧ t.size = 2) ∧
    (ofInstrs [.label "a", .label "b", .jump "a", .label "b", .label "a"]).labels
      = .error ⟨3, .duplicateLabel "b"⟩ := by
  obtain ⟨_, htable, _⟩ := labels_exact (ofInstrs [.jump "b", .label "a", .call "a", .label "b"])
  obtain ⟨_, _, herror⟩ :=
    labels_exact (ofInstrs [.label "a", .label "b", .jump "a", .label "b", .label "a"])
  obtain ⟨hfind, _, hsize⟩ := htable ⟨[("a", 1), ("b", 3)]⟩ rfl
  refine ⟨⟨_, rfl, (hfind "b" 3).mpr rfl, hsize⟩, ?_⟩
  refine (herror _).mpr ⟨"b", rfl, rfl, ⟨"b", rfl, 1, by decide, rfl⟩, ?_⟩
  rintro j ⟨other, hj, i, hij, hi⟩
  by_contra hlt
  have hbefore : i = 0 ∧ j = 1 ∨ j = 2 := by
    dsimp only at hlt
    omega
  rcases hbefore with ⟨rfl, rfl⟩ | rfl
  · have ha : some (Instr.label "a") = some (.label "b") := hi.trans hj.symm
    exact absurd ha (by decide)
  · have hjump : some (Instr.jump "a") = some (.label other) := hj
    cases hjump

end Program
end IPPcode24
