import IPPcode24.Proofs.Pages

/-!
# Programs that have a source text

A program has a source text if its records are numbered from one on and all its operands can be
written.  The text is a page with the operands as they are written.

* `Instr.source i`                the words of an instruction as it is written
* `assemble_source`               **the page of writable instructions stands for them**
* `Program.exists_assemble_iff`   when there is a text that stands for a program
* `Program.exists_source_iff`     the same for the program of a list of records
-/

namespace IPPcode24

/-! ## instructions -/

def Instr.IsWritable (i : Instr) : Prop := ∀ o ∈ i.operands, o.IsWritable

def Instr.source (i : Instr) : List (List Char) :=
  i.opcode.mnemonic.toList :: i.operands.map Operand.source

theorem Opcode.isWord_mnemonic (op : Opcode) : IsWord op.mnemonic.toList := by
  have hname : ∀ op ∈ Opcode.all, isName op.mnemonic.toList = true := by decide +kernel
  exact isWord_of_isName _ (hname op op.mem_all)

theorem Instr.readsAs_source (i : Instr) (h : i.IsWritable) : ReadsAs i.source i := by
  refine ⟨_, _, rfl, ?_, i.opcode.ofMnemonic?_mnemonic, ?_⟩
  · refine List.forall_mem_cons.mpr ⟨i.opcode.isWord_mnemonic, fun w hw => ?_⟩
    obtain ⟨o, ho, rfl⟩ := List.mem_map.mp hw
    exact o.isWord_source (h o ho)
  · rw [List.forall₂_map_left_iff, List.forall₂_same]
    exact fun o ho => o.denotes_source (h o ho)

/-- **The page of writable instructions stands for them.** -/
theorem assemble_source (is : List Instr) (h : ∀ i ∈ is, i.IsWritable) :
    assemble (page (is.map Instr.source)) = .ok (Program.ofInstrs is) :=
  assemble_page Instr.source is fun i hi => i.readsAs_source (h i hi)

theorem forall_isWritable (ts : List (List Char)) (os : List Operand) (hts : ∀ t ∈ ts, IsWord t)
    (h : List.Forall₂ Operand.Denotes ts os) : ∀ o ∈ os, o.IsWritable := by
  induction h with
  | nil => exact List.forall_mem_nil _
  | @cons t o ts os hto _ ih =>
    obtain ⟨ht, hts⟩ := List.forall_mem_cons.mp hts
    exact List.forall_mem_cons.mpr ⟨o.isWritable_iff.mpr ⟨t, ht, hto⟩, ih hts⟩

theorem isWritable_of_assemble (s : List Char) (p : Program) (h : assemble s = .ok p) :
    ∀ i ∈ p.instrs, i.IsWritable := by
  intro i hi
  obtain ⟨ts, hts, hd⟩ := (assemble_eq_ok s p h).2 i hi
  exact forall_isWritable ts i.operands hts hd

namespace Program

/-! ## programs -/

theorem eq_of_toList (p q : Program) (h : p.records.toList = q.records.toList) : p = q := by
  obtain ⟨⟨ps⟩, _⟩ := p
  obtain ⟨⟨qs⟩, _⟩ := q
  cases h
  rfl

/-- the numbers of records that are numbered from `n` on -/
theorem number_map_instr (n : Nat) (rs : List Record) :
    number n (rs.map Record.instr) = rs ↔ rs.map Record.order = List.range' n rs.length := by
  induction rs generalizing n with
  | nil => exact ⟨fun _ => rfl, fun _ => rfl⟩
  | cons r rs ih =>
    rw [List.map_cons, List.map_cons, List.length_cons, List.range'_succ, number, List.cons.injEq,
      List.cons.injEq, ih (n + 1)]
    exact and_congr_left fun _ => ⟨fun h => by rw [← h], fun h => by rw [← h]⟩

theorem eq_ofInstrs_iff (p : Program) :
    p = ofInstrs p.instrs ↔
      p.records.toList.map Record.order = List.range' 1 p.records.toList.length := by
  rw [← number_map_instr]
  exact ⟨fun h => (congrArg (fun q => q.records.toList) h).symm, fun h => eq_of_toList _ _ h.symm⟩

theorem exists_assemble_iff (p : Program) :
    (∃ s, assemble s = .ok p) ↔
      p.records.toList.map Record.order = List.range' 1 p.records.toList.length ∧
        ∀ r ∈ p.records.toList, r.instr.IsWritable := by
  rw [← eq_ofInstrs_iff, ← List.forall_mem_map]
  constructor
  · rintro ⟨s, h⟩
    exact ⟨(assemble_eq_ok s p h).1, isWritable_of_assemble s p h⟩
  · rintro ⟨hp, h⟩
    refine ⟨page (p.instrs.map Instr.source), ?_⟩
    rw [assemble_source p.instrs h, ← hp]

/-! ## programs of records -/

theorem firstRepeat_of_increasing (rs : List Record)
    (h : rs.Pairwise fun a b => a.order < b.order) : firstRepeat rs = none := by
  induction rs with
  | nil => rfl
  | cons a rs ih =>
    obtain ⟨ha, hrs⟩ := List.pairwise_cons.mp h
    cases rs with
    | nil => rfl
    | cons b rs =>
      rw [firstRepeat, if_neg (Nat.ne_of_lt (ha b List.mem_cons_self)), ih hrs]

theorem ofRecords_eq_ok (rs : List Record) (p : Program) :
    ofRecords rs = .ok p ↔ p.records.toList = sorted rs := by
  constructor
  · intro h
    rw [ofRecords] at h
    split at h
    · cases h
    · cases h
      rfl
  · intro h
    have hrepeat : firstRepeat (sorted rs) = none := by
      rw [← h]
      exact firstRepeat_of_increasing _ p.increasing
    rw [ofRecords]
    split
    · next horder =>
      rw [hrepeat] at horder
      cases horder
    · exact congrArg Except.ok (eq_of_toList _ _ h.symm)

theorem sorted_of_increasing (rs : List Record)
    (h : rs.Pairwise fun a b => a.order < b.order) : sorted rs = rs :=
  List.mergeSort_of_pairwise (h.imp fun hab => decide_eq_true (Nat.le_of_lt hab))

theorem exists_source_sorted (rs : List Record) :
    (∃ s p, ofRecords rs = .ok p ∧ assemble s = .ok p) ↔
      (sorted rs).map Record.order = List.range' 1 rs.length ∧ ∀ r ∈ rs, r.instr.IsWritable := by
  have hlen : (sorted rs).length = rs.length := List.length_mergeSort rs
  have hmem : ∀ r, r ∈ sorted rs ↔ r ∈ rs := fun r => List.mem_mergeSort
  have hcond : ∀ p : Program, p.records.toList = sorted rs → ((∃ s, assemble s = .ok p) ↔
      (sorted rs).map Record.order = List.range' 1 rs.length ∧
        ∀ r ∈ rs, r.instr.IsWritable) := by
    intro p hp
    rw [exists_assemble_iff, hp, hlen]
    simp only [hmem]
  constructor
  · rintro ⟨s, p, hp, hs⟩
    exact (hcond p ((ofRecords_eq_ok rs p).mp hp)).mp ⟨s, hs⟩
  · intro h
    have hp : (ofInstrs ((sorted rs).map Record.instr)).records.toList = sorted rs := by
      refine (number_map_instr 1 (sorted rs)).mpr ?_
      rw [hlen]
      exact h.1
    obtain ⟨s, hs⟩ := (hcond _ hp).mpr h
    exact ⟨s, _, (ofRecords_eq_ok rs _).mpr hp, hs⟩

/-- **The programs that have a source text.**  A list of records is the program of some text if the
records are numbered from one on in the order of the list, all names are valid, all types are those
that READ can produce, and no value is the name of a type or a string with white space that has a
code above 999.  The records may also stand in another order: then their program has a text if they
are numbered so once they are sorted. -/
theorem exists_source_iff (rs : List Record) :
    ((∃ s p, ofRecords rs = .ok p ∧ p.records.toList = rs ∧ assemble s = .ok p) ↔
      rs.map Record.order = List.range' 1 rs.length ∧
        ∀ r ∈ rs, ∀ o ∈ r.instr.operands, o.IsWritable) ∧
    ((∃ s p, ofRecords rs = .ok p ∧ assemble s = .ok p) ↔
      (sorted rs).map Record.order = List.range' 1 rs.length ∧
        ∀ r ∈ rs, ∀ o ∈ r.instr.operands, o.IsWritable) := by
  refine ⟨⟨?_, fun h => ?_⟩, exists_source_sorted rs⟩
  · rintro ⟨s, p, _, rfl, hs⟩
    exact (exists_assemble_iff p).mp ⟨s, hs⟩
  · have hsorted : sorted rs = rs := by
      refine sorted_of_increasing rs (List.pairwise_map.mp ?_)
      rw [h.1]
      exact List.pairwise_lt_range'
    obtain ⟨s, p, hp, hs⟩ := (exists_source_sorted rs).mpr (by rwa [hsorted])
    exact ⟨s, p, hp, ((ofRecords_eq_ok rs p).mp hp).trans hsorted, hs⟩

end Program
end IPPcode24
