import IPPcode24.Proofs.Notation

/-!
# Pages

A page is a header and a line of words for each instruction.

* `page ls`                       the page of some lines, each a list of words
* `ReadsAs ws i`                  the words make a line that stands for the instruction `i`
* `assemble_header`               what stands behind the header
* `assemble_page`                 **a page stands for the instructions of its lines**
* `exists_numberedLines_cut`      a line that is cut short begins with the words before the cut
* `assemble_eq_ok`                every program that is assembled comes from lines of words
-/

namespace IPPcode24

/-! ## lines with words -/

theorem numberedLines_cons (n : Nat) (l : List Char) (ls : List (List Char)) (word : List Char)
    (rest : List (List Char)) (h : tokens l = word :: rest) :
    numberedLines n (l :: ls) = ⟨n, word, rest⟩ :: numberedLines (n + 1) ls := by
  rw [numberedLines, h]

theorem numberedLines_unwords (n : Nat) (word : List Char) (rest : List (List Char))
    (s : List Char) (h : ∀ w ∈ word :: rest, IsWord w) :
    numberedLines n (lines (unwords (word :: rest) ++ '\n' :: s))
      = ⟨n, word, rest⟩ :: numberedLines (n + 1) (lines s) := by
  rw [lines_append_newline _ s fun c hc => (forall_mem_unwords_of_isWord _ h c hc).2]
  exact numberedLines_cons n _ _ word rest (tokens_unwords _ h)

/-- where a word is cut short by a character that no word holds, the line goes on with other words,
or there is another line -/
theorem exists_numberedLines_cut (n : Nat) (word a : List Char) (ws : List (List Char)) (c : Char)
    (s : List Char) (h : ∀ w ∈ word :: (ws ++ [a]), IsWord w) (hc : isPlain c = false) :
    ∃ more ls, numberedLines n (lines (unwords (word :: (ws ++ [a])) ++ c :: s))
      = ⟨n, word, ws ++ a :: more⟩ :: numberedLines (n + 1) ls := by
  obtain ⟨l, ls, hs, hl⟩ := exists_lines_cons c s
  have hline := forall_mem_unwords_of_isWord _ h
  obtain ⟨more, hmore⟩ :=
    exists_tokens_append _ l (fun c hc => (hline c hc).1) c hc hl
  rw [words_unwords _ h] at hmore
  refine ⟨more, ls, ?_⟩
  rw [lines_append _ _ (fun c hc => (hline c hc).2) l ls hs]
  refine numberedLines_cons n _ _ word _ ?_
  rw [hmore, List.cons_append, List.append_assoc]
  rfl

theorem isWord_of_mem_numberedLines (n : Nat) (ls : List (List Char)) (l : CodeLine)
    (h : l ∈ numberedLines n ls) : ∀ w ∈ l.rest, IsWord w := by
  induction ls generalizing n with
  | nil => cases h
  | cons x ls ih =>
    rw [numberedLines] at h
    cases ht : tokens x with
    | nil =>
      rw [ht] at h
      exact ih (n + 1) h
    | cons word rest =>
      rw [ht] at h
      rcases List.mem_cons.mp h with rfl | h
      · intro w hw
        refine forall_of_mem_tokens x w ?_
        rw [ht]
        exact List.mem_cons_of_mem _ hw
      · exact ih (n + 1) h

/-! ## instructions of lines -/

theorem instrsOfLines_cons (l : CodeLine) (ls : List CodeLine) (i : Instr) (h : l.instr = .ok i) :
    instrsOfLines (l :: ls) = (instrsOfLines ls).map (i :: ·) := by
  rw [instrsOfLines, h]

theorem instrsOfLines_cons_eq_ok (l : CodeLine) (ls : List CodeLine) (is : List Instr)
    (h : instrsOfLines (l :: ls) = .ok is) :
    ∃ i is', l.instr = .ok i ∧ instrsOfLines ls = .ok is' ∧ is = i :: is' := by
  cases hl : l.instr with
  | error e => rw [instrsOfLines, hl] at h; cases h
  | ok i =>
    rw [instrsOfLines_cons l ls i hl] at h
    obtain ⟨is', his', hcons⟩ := (map_eq_ok _ _ _).mp h
    exact ⟨i, is', rfl, his', hcons.symm⟩

theorem exists_of_mem_instrsOfLines (ls : List CodeLine) (is : List Instr)
    (h : instrsOfLines ls = .ok is) (i : Instr) (hi : i ∈ is) : ∃ l ∈ ls, l.instr = .ok i := by
  induction ls generalizing is with
  | nil =>
    cases h
    cases hi
  | cons l ls ih =>
    obtain ⟨j, js, hl, hls, rfl⟩ := instrsOfLines_cons_eq_ok l ls is h
    rcases List.mem_cons.mp hi with rfl | hi
    · exact ⟨l, List.mem_cons_self, hl⟩
    · obtain ⟨l', hl', hi'⟩ := ih js hls hi
      exact ⟨l', List.mem_cons_of_mem _ hl', hi'⟩

theorem CodeLine.instr_eq_ok (l : CodeLine) (i : Instr) :
    l.instr = .ok i ↔ Opcode.ofMnemonic? l.word = some i.opcode ∧
      List.Forall₂ Operand.Denotes l.rest i.operands := by
  rw [CodeLine.instr]
  cases hop : Opcode.ofMnemonic? l.word with
  | none => exact ⟨fun h => (nomatch h), fun h => (nomatch h.1)⟩
  | some op =>
    rw [Option.some.injEq, eq_comm (a := op), ← Instr.parse_eq_ok]
    dsimp only
    cases Instr.parse op l.rest with
    | error d => exact ⟨fun h => (nomatch h), fun h => (nomatch h)⟩
    | ok j => exact ⟨fun h => by cases h; rfl, fun h => by cases h; rfl⟩

/-! ## pages -/

/-- the lines, each ended by a line feed -/
def body (ls : List (List (List Char))) : List Char :=
  (ls.map unwords).flatMap fun l => l ++ ['\n']

def page (ls : List (List (List Char))) : List Char := header.toList ++ '\n' :: body ls

theorem body_cons (ws : List (List Char)) (ls : List (List (List Char))) :
    body (ws :: ls) = unwords ws ++ '\n' :: body ls := by
  rw [body, List.map_cons, List.flatMap_cons, List.append_assoc]
  rfl

/-- behind the header stand the lines of the instructions -/
theorem assemble_header (s : List Char) :
    assemble (header.toList ++ '\n' :: s)
      = (instrsOfLines (numberedLines 2 (lines s))).map Program.ofInstrs := by
  have hheader : ∀ w ∈ [header.toList], IsWord w := by
    intro w hw
    cases List.mem_singleton.mp hw
    exact ⟨by decide, List.all_eq_true.mp (by decide)⟩
  have hcode : codeLines (header.toList ++ '\n' :: s)
      = ⟨1, header.toList, []⟩ :: numberedLines 2 (lines s) := by
    have h := numberedLines_unwords 1 header.toList [] s hheader
    rwa [unwords_singleton] at h
  rw [assemble, hcode]
  rfl

/-- the program of a page is that of its body -/
theorem assemble_page_eq (ls : List (List (List Char))) :
    assemble (page ls)
      = (instrsOfLines (numberedLines 2 (lines (body ls)))).map Program.ofInstrs :=
  assemble_header (body ls)

def ReadsAs (ws : List (List Char)) (i : Instr) : Prop :=
  ∃ word rest, ws = word :: rest ∧ (∀ w ∈ ws, IsWord w) ∧
    Opcode.ofMnemonic? word = some i.opcode ∧ List.Forall₂ Operand.Denotes rest i.operands

/-- a line is read as its instruction, and then the rest of the body -/
theorem instrsOfLines_body_cons (ws : List (List Char)) (ls : List (List (List Char))) (i : Instr)
    (h : ReadsAs ws i) (n : Nat) :
    instrsOfLines (numberedLines n (lines (body (ws :: ls))))
      = (instrsOfLines (numberedLines (n + 1) (lines (body ls)))).map (i :: ·) := by
  obtain ⟨word, rest, rfl, hw, hop, hp⟩ := h
  rw [body_cons, numberedLines_unwords n word rest _ hw]
  exact instrsOfLines_cons _ _ i ((CodeLine.instr_eq_ok _ i).mpr ⟨hop, hp⟩)

theorem instrsOfLines_body (f : Instr → List (List Char)) (is : List Instr)
    (h : ∀ i ∈ is, ReadsAs (f i) i) (n : Nat) :
    instrsOfLines (numberedLines n (lines (body (is.map f)))) = .ok is := by
  induction is generalizing n with
  | nil => rfl
  | cons i is ih =>
    obtain ⟨hi, his⟩ := List.forall_mem_cons.mp h
    rw [List.map_cons, instrsOfLines_body_cons _ _ i hi n, ih his (n + 1)]
    rfl

/-- **A page stands for the instructions of its lines.** -/
theorem assemble_page (f : Instr → List (List Char)) (is : List Instr)
    (h : ∀ i ∈ is, ReadsAs (f i) i) :
    assemble (page (is.map f)) = .ok (Program.ofInstrs is) := by
  rw [assemble_page_eq, instrsOfLines_body f is h 2]
  rfl

/-! ## texts -/

/-- **Every program that is assembled comes from lines of words.** -/
theorem assemble_eq_ok (s : List Char) (p : Program) (h : assemble s = .ok p) :
    p = Program.ofInstrs p.instrs ∧ ∀ i ∈ p.instrs, ∃ ts : List (List Char),
      (∀ t ∈ ts, IsWord t) ∧ List.Forall₂ Operand.Denotes ts i.operands := by
  rw [assemble] at h
  cases hcode : codeLines s with
  | nil => rw [hcode] at h; cases h
  | cons l ls =>
    rw [hcode] at h
    dsimp only at h
    split at h
    · obtain ⟨is, his, rfl⟩ := (map_eq_ok _ _ _).mp h
      rw [Program.instrs_ofInstrs]
      refine ⟨rfl, fun i hi => ?_⟩
      obtain ⟨l', hl', hi'⟩ := exists_of_mem_instrsOfLines ls is his i hi
      refine ⟨l'.rest, ?_, ((CodeLine.instr_eq_ok l' i).mp hi').2⟩
      refine isWord_of_mem_numberedLines 1 (lines s) l' ?_
      show l' ∈ codeLines s
      rw [hcode]
      exact List.mem_cons_of_mem _ hl'
    · cases h

end IPPcode24
