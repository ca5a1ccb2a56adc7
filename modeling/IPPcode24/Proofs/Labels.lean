import IPPcode24.Proofs.Steps
import Mathlib.Data.List.Nodup

/-!
# The label table

* `mem_definitions`             what is listed is what `LABEL` instructions define, and where
* `firstRedefined_eq_none`      no name is listed twice, unless one is refused
* `Machine.find?_label`         **a name is found where the program defines it, and nowhere else**
* `Machine.label_unique`, `Machine.find?_eq_none`   it is defined once, or not at all
* `Machine.exists_load_iff`     **a program can be loaded if it defines no label twice**
* `Program.size_labels`         how many labels there are in a table

The table of a machine comes from its program by `Machine.labels_eq`, which is all that is used.
-/

namespace IPPcode24

/-! ## the list of definitions -/

theorem Instr.label?_eq_some (i : Instr) (name : String) :
    i.label? = some name ↔ i = .label name := by
  cases i with
  | label n => rw [label?, Option.some.injEq, Instr.label.injEq]
  | _ => exact ⟨fun h => (nomatch h), fun h => (nomatch h)⟩

theorem mem_definitions (is : List Instr) (n : Nat) (name : String) (i : Nat) :
    (name, i) ∈ definitions n is ↔ ∃ k, i = n + k ∧ is[k]? = some (.label name) := by
  induction is generalizing n with
  | nil => exact ⟨fun h => (nomatch h), fun ⟨_, _, h⟩ => (nomatch h)⟩
  | cons x is ih =>
    -- the instructions behind `x` are counted from one further on
    have hlater : (name, i) ∈ definitions (n + 1) is ↔
        ∃ k, i = n + (k + 1) ∧ (x :: is)[k + 1]? = some (.label name) := by
      rw [ih (n + 1)]
      simp only [List.getElem?_cons_succ]
      exact exists_congr fun k => by rw [Nat.add_right_comm, Nat.add_assoc]
    have hhere : (∃ k, i = n + k ∧ (x :: is)[k]? = some (.label name)) ↔
        (i = n ∧ x = .label name) ∨ (name, i) ∈ definitions (n + 1) is := by
      rw [hlater]
      constructor
      · rintro ⟨k, hi, hk⟩
        cases k with
        | zero => exact .inl ⟨hi, Option.some.inj hk⟩
        | succ k => exact .inr ⟨k, hi, hk⟩
      · rintro (⟨rfl, rfl⟩ | ⟨k, hi, hk⟩)
        · exact ⟨0, rfl, rfl⟩
        · exact ⟨k + 1, hi, hk⟩
    rw [hhere, definitions]
    cases hx : x.label? with
    | none =>
      constructor
      · exact .inr
      · rintro (⟨_, rfl⟩ | h)
        · cases hx
        · exact h
    | some l =>
      have hl := (x.label?_eq_some l).mp hx
      rw [List.mem_cons, Prod.mk.injEq, hl, Instr.label.injEq]
      constructor
      · rintro (⟨h, h'⟩ | h)
        · exact .inl ⟨h', h.symm⟩
        · exact .inr h
      · rintro (⟨h, h'⟩ | h)
        · exact .inl ⟨h'.symm, h⟩
        · exact .inr h

/-- what is not refused has no name twice, nor one that was seen -/
theorem firstRedefined_eq_none (ds : List (String × Nat)) (seen : List String) :
    firstRedefined seen ds = none ↔ (ds.map Prod.fst).Nodup ∧ ∀ d ∈ ds, d.1 ∉ seen := by
  induction ds generalizing seen with
  | nil => exact ⟨fun _ => ⟨List.nodup_nil, fun _ hd => (nomatch hd)⟩, fun _ => rfl⟩
  | cons d ds ih =>
    rw [firstRedefined, List.map_cons, List.nodup_cons, List.forall_mem_cons]
    by_cases hd : d.1 ∈ seen
    · rw [if_pos hd]
      exact ⟨fun h => (nomatch h), fun h => absurd hd h.2.1⟩
    · rw [if_neg hd, ih]
      constructor
      · rintro ⟨hnodup, hseen⟩
        refine ⟨⟨fun hmem => ?_, hnodup⟩, hd, fun e he hs => hseen e he (List.mem_cons_of_mem _ hs)⟩
        obtain ⟨e, he, hed⟩ := List.mem_map.mp hmem
        exact hseen e he (List.mem_cons.mpr (.inl hed))
      · rintro ⟨⟨hmem, hnodup⟩, _, hseen⟩
        refine ⟨hnodup, fun e he hs => ?_⟩
        rcases List.mem_cons.mp hs with hed | hs
        · exact hmem (List.mem_map.mpr ⟨e, he, hed⟩)
        · exact hseen e he hs

theorem map_fst_definitions (n : Nat) (is : List Instr) :
    (definitions n is).map Prod.fst = is.filterMap Instr.label? := by
  induction is generalizing n with
  | nil => rfl
  | cons i is ih =>
    rw [definitions, List.filterMap_cons]
    cases i.label? with
    | none => exact ih (n + 1)
    | some name => exact congrArg (name :: ·) (ih (n + 1))

/-- where no name is listed twice, what is listed is what is found -/
theorem lookup_eq_some_of_nodup {β : Type} (ds : List (String × β))
    (hds : (ds.map Prod.fst).Nodup) (name : String) (i : β) :
    ds.lookup name = some i ↔ (name, i) ∈ ds := by
  induction ds with
  | nil => exact ⟨fun h => (nomatch h), fun h => (nomatch h)⟩
  | cons d ds ih =>
    obtain ⟨l, j⟩ := d
    rw [List.map_cons, List.nodup_cons] at hds
    rw [List.lookup_cons, List.mem_cons, Prod.mk.injEq]
    by_cases hl : name = l
    · have hnot : (name, i) ∉ ds := by
        intro h
        exact hds.1 (List.mem_map.mpr ⟨(name, i), h, hl⟩)
      rw [hl] at hnot ⊢
      simp [hnot, eq_comm]
    · rw [beq_false_of_ne hl, ih hds.2]
      simp [hl]

/-! ## the table of a machine -/

namespace Machine

variable (m : Machine)

theorem instr?_eq_getElem? (i : Nat) : m.instr? i = m.program.instrs[i]? := by
  rw [instr?, Program.get?, Program.instrs, List.getElem?_map, Array.getElem?_toList]

theorem mem_instrs_of_instr? (i : Nat) (x : Instr) (h : m.instr? i = some x) :
    x ∈ m.program.instrs := List.mem_of_getElem? ((m.instr?_eq_getElem? i).symm.trans h)

theorem lt_size_of_instr? (i : Nat) (x : Instr) (h : m.instr? i = some x) :
    i < m.program.size := by
  rw [instr?, Option.map_eq_some_iff] at h
  obtain ⟨r, hr, _⟩ := h
  exact (Array.getElem?_eq_some_iff.mp hr).1

theorem entries_eq : m.labels.entries = definitions 0 m.program.instrs ∧
    (m.labels.entries.map Prod.fst).Nodup := by
  have h := m.labels_eq
  rw [Program.labels] at h
  cases hr : firstRedefined [] (definitions 0 m.program.instrs) with
  | some d => rw [hr] at h; cases h
  | none =>
    rw [hr] at h
    have hl := Except.ok.inj h
    rw [← hl]
    exact ⟨rfl, ((firstRedefined_eq_none _ _).mp hr).1⟩

/-- **A name is found where the program defines it.** -/
theorem find?_label (name : String) (i : Nat) :
    m.labels.find? name = some i ↔ m.instr? i = some (.label name) := by
  obtain ⟨hentries, hnodup⟩ := m.entries_eq
  rw [Labels.find?, lookup_eq_some_of_nodup _ hnodup, hentries, mem_definitions,
    instr?_eq_getElem?]
  constructor
  · rintro ⟨k, rfl, hk⟩
    rw [Nat.zero_add]
    exact hk
  · exact fun h => ⟨i, (Nat.zero_add i).symm, h⟩

theorem label_unique (name : String) (i j : Nat) (hi : m.instr? i = some (.label name))
    (hj : m.instr? j = some (.label name)) : i = j := by
  rw [← find?_label] at hi hj
  rw [hi] at hj
  exact Option.some.inj hj

theorem find?_eq_none (name : String) :
    m.labels.find? name = none ↔ ∀ i, m.instr? i ≠ some (.label name) := by
  rw [Option.eq_none_iff_forall_ne_some]
  exact forall_congr' fun i => not_congr (m.find?_label name i)

/-! ## loading -/

theorem nodup_labels : (m.program.instrs.filterMap Instr.label?).Nodup := by
  rw [← map_fst_definitions 0, ← m.entries_eq.1]
  exact m.entries_eq.2

theorem load_eq_ok (p : Program) : load p = .ok m ↔ m.program = p := by
  rw [load]
  split
  · next t ht =>
    constructor
    · intro h
      cases h
      rfl
    · rintro rfl
      obtain ⟨q, u, hu⟩ := m
      cases hu.symm.trans ht
      rfl
  · next f hf =>
    refine ⟨fun h => (nomatch h), ?_⟩
    rintro rfl
    cases m.labels_eq.symm.trans hf

theorem load_eq_error (p : Program) (f : Fault) : load p = .error f ↔ p.labels = .error f := by
  rw [load]
  split
  · next t ht => exact ⟨fun h => (nomatch h), fun h => (nomatch ht.symm.trans h)⟩
  · next g hg => rw [hg, Except.error.injEq, Except.error.injEq]

/-- **A program can be loaded if it defines no label twice.** -/
theorem exists_load_iff (p : Program) :
    (∃ m, load p = .ok m) ↔ (p.instrs.filterMap Instr.label?).Nodup := by
  constructor
  · rintro ⟨m, hm⟩
    rw [← (m.load_eq_ok p).mp hm]
    exact m.nodup_labels
  · intro h
    rw [← map_fst_definitions 0] at h
    have ht : p.labels = .ok ⟨definitions 0 p.instrs⟩ := by
      rw [Program.labels, (firstRedefined_eq_none _ []).mpr ⟨h, fun _ _ hs => (nomatch hs)⟩]
    exact ⟨⟨p, _, ht⟩, (load_eq_ok _ p).mpr rfl⟩

end Machine

/-! ## counts -/

theorem Instr.isSome_label? (i : Instr) : i.label?.isSome = decide (i.opcode = .label) := by
  cases i with
  | unary f dst a => cases f <;> rfl
  | binary f dst a b => cases f <;> rfl
  | print channel a => cases channel <;> rfl
  | jumpIf verdict name a b => cases verdict <;> rfl
  | _ => rfl

theorem Program.size_labels (p : Program) (t : Labels) (h : p.labels = .ok t) :
    t.size = p.instrs.countP fun i => i.opcode = .label := by
  have hentries : t.entries = definitions 0 p.instrs := (Machine.mk p t h).entries_eq.1
  have hlabel : (fun i : Instr => i.label?.isSome) = fun i => decide (i.opcode = .label) :=
    funext Instr.isSome_label?
  rw [Labels.size, hentries, ← List.length_map Prod.fst, map_fst_definitions,
    List.length_filterMap_eq_countP, hlabel]

end IPPcode24
