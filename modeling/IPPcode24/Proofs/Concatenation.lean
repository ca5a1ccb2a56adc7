import IPPcode24.Proofs.Pages

/-!
# Texts that go on

A text that ends its last line can be followed by another one.  What is assembled from both is told
by the two: the second is read as if it stood behind a header of its own, and then its orders and
lines are counted on from those of the first.

* `lines_append_of_getLast?`      the lines of both, one after the other
* `instrsOfLines_append`          the first failure is that of the first part that has one
* `SourceError.mapLine f e`       the error with its line counted in another way
* `instrsOfLines_numberedLines_add`   lines that are counted from further on fail there
* `Program.records_ofInstrs_append`   orders that are counted on
* `assemble_append`               **the two parts of a text are assembled one after the other**
-/

namespace IPPcode24

/-! ## lines -/

theorem lines_append_newline_append (a b : List Char) :
    lines (a ++ '\n' :: b) = lines (a ++ ['\n']) ++ lines b := by
  induction a using cut_induction '\n' with
  | nil => rw [List.nil_append, List.nil_append, lines_lf, lines_lf]; rfl
  | last a _ ha => rw [lines_line a b ha, lines_line a [] ha]; rfl
  | line p r hp ih =>
    rw [List.append_assoc, List.append_assoc, List.cons_append, List.cons_append,
      lines_line p _ hp, lines_line p _ hp, ih]
    rfl

theorem lines_append_of_getLast? (a b : List Char) (ha : a.getLast? = some '\n') :
    lines (a ++ b) = lines a ++ lines b := by
  obtain ⟨s, rfl⟩ := List.getLast?_eq_some_iff.mp ha
  rw [List.append_assoc]
  exact lines_append_newline_append s b

theorem numberedLines_append (n : Nat) (ls ms : List (List Char)) :
    numberedLines n (ls ++ ms) = numberedLines n ls ++ numberedLines (n + ls.length) ms := by
  induction ls generalizing n with
  | nil => rfl
  | cons l ls ih =>
    rw [List.cons_append, List.length_cons, numberedLines, numberedLines, ih (n + 1),
      Nat.add_right_comm n 1, Nat.add_assoc n]
    cases tokens l with
    | nil => rfl
    | cons word rest => rfl

/-- the lines with words of a text and of what follows it -/
theorem codeLines_append (a b : List Char) (ha : a.getLast? = some '\n') :
    codeLines (a ++ b) = codeLines a ++ numberedLines ((lines a).length + 1) (lines b) := by
  rw [codeLines, codeLines, lines_append_of_getLast? a b ha, numberedLines_append, Nat.add_comm 1]

/-! ## instructions -/

theorem instrsOfLines_append (ls ms : List CodeLine) :
    instrsOfLines (ls ++ ms)
      = (instrsOfLines ls).bind fun is => (instrsOfLines ms).map fun js => is ++ js := by
  induction ls with
  | nil =>
    show instrsOfLines ms = (instrsOfLines ms).map fun js => js
    cases instrsOfLines ms <;> rfl
  | cons l ls ih =>
    rw [List.cons_append, instrsOfLines, instrsOfLines, ih]
    cases l.instr with
    | error e => rfl
    | ok i =>
      cases instrsOfLines ls with
      | error e => rfl
      | ok is => cases instrsOfLines ms <;> rfl

/-- the line that the error names -/
def SourceError.line? : SourceError → Option Nat
  | .missingHeader => none
  | .invalidHeader line _ | .unknownOpcode line _ | .defect line _ => some line

def SourceError.mapLine (f : Nat → Nat) : SourceError → SourceError
  | .missingHeader => .missingHeader
  | .invalidHeader line found => .invalidHeader (f line) found
  | .unknownOpcode line word => .unknownOpcode (f line) word
  | .defect line d => .defect (f line) d

/-- an instruction that is refused is so at the number of its line -/
theorem CodeLine.line?_of_instr (l : CodeLine) (e : SourceError) (h : l.instr = .error e) :
    e.line? = some l.number := by
  rw [instr] at h
  split at h
  · cases h
    rfl
  · split at h
    · cases h
      rfl
    · cases h

theorem CodeLine.instr_mapLine (f : Nat → Nat) (l : CodeLine) :
    CodeLine.instr { l with number := f l.number } = l.instr.mapError (SourceError.mapLine f) := by
  rw [instr, instr]
  cases Opcode.ofMnemonic? l.word with
  | none => rfl
  | some op =>
    dsimp only
    cases Instr.parse op l.rest <;> rfl

/-- lines that are counted from further on fail there -/
theorem instrsOfLines_numberedLines_add (n k : Nat) (ls : List (List Char)) :
    instrsOfLines (numberedLines (n + k) ls)
      = (instrsOfLines (numberedLines n ls)).mapError (SourceError.mapLine (· + k)) := by
  induction ls generalizing n with
  | nil => rfl
  | cons l ls ih =>
    have hlater := ih (n + 1)
    rw [Nat.add_right_comm] at hlater
    rw [numberedLines, numberedLines]
    cases tokens l with
    | nil => exact hlater
    | cons word rest =>
      have hline := CodeLine.instr_mapLine (· + k) ⟨n, word, rest⟩
      rw [instrsOfLines, instrsOfLines, hlater]
      dsimp only at hline ⊢
      rw [hline]
      cases CodeLine.instr ⟨n, word, rest⟩ with
      | error e => rfl
      | ok i => cases instrsOfLines (numberedLines (n + 1) ls) <;> rfl

/-- the line that is refused is one of those that were numbered -/
theorem line?_of_instrsOfLines (n : Nat) (ls : List (List Char)) (e : SourceError)
    (h : instrsOfLines (numberedLines n ls) = .error e) :
    ∃ l, e.line? = some l ∧ n ≤ l ∧ l < n + ls.length := by
  induction ls generalizing n with
  | nil => cases h
  | cons x ls ih =>
    have hlater : instrsOfLines (numberedLines (n + 1) ls) = .error e →
        ∃ l, e.line? = some l ∧ n ≤ l ∧ l < n + (x :: ls).length := by
      intro h
      obtain ⟨l, hl, hn, hlt⟩ := ih (n + 1) h
      exact ⟨l, hl, Nat.le_of_succ_le hn, by rw [List.length_cons]; omega⟩
    rw [numberedLines] at h
    cases hx : tokens x with
    | nil =>
      rw [hx] at h
      exact hlater h
    | cons word rest =>
      rw [hx] at h
      dsimp only at h
      rw [instrsOfLines] at h
      cases hi : CodeLine.instr ⟨n, word, rest⟩ with
      | error e' =>
        rw [hi] at h
        cases h
        refine ⟨n, CodeLine.line?_of_instr _ _ hi, Nat.le_refl n, ?_⟩
        rw [List.length_cons]
        omega
      | ok i =>
        rw [hi] at h
        dsimp only at h
        cases hls : instrsOfLines (numberedLines (n + 1) ls) with
        | error e' =>
          rw [hls] at h
          cases h
          exact hlater hls
        | ok is => rw [hls] at h; cases h

/-! ## programs -/

namespace Program

theorem number_append (n : Nat) (is js : List Instr) :
    number n (is ++ js) = number n is ++ number (n + is.length) js := by
  induction is generalizing n with
  | nil => rfl
  | cons i is ih =>
    rw [List.cons_append, number, number, ih (n + 1), List.length_cons, Nat.add_right_comm n 1,
      Nat.add_assoc n]
    rfl

theorem number_add (n k : Nat) (is : List Instr) :
    number (n + k) is = (number n is).map fun r => ⟨r.order + k, r.instr⟩ := by
  induction is generalizing n with
  | nil => rfl
  | cons i is ih => rw [number, number, List.map_cons, ← ih (n + 1), Nat.add_right_comm]

theorem length_number (n : Nat) (is : List Instr) : (number n is).length = is.length := by
  rw [← List.length_map Record.instr, map_instr_number]

theorem size_ofInstrs (is : List Instr) : (ofInstrs is).size = is.length := length_number 1 is

/-- instructions that follow others have their orders counted on -/
theorem records_ofInstrs_append (is js : List Instr) :
    (ofInstrs (is ++ js)).records.toList = (ofInstrs is).records.toList ++
      (ofInstrs js).records.toList.map fun r => ⟨r.order + (ofInstrs is).size, r.instr⟩ := by
  rw [size_ofInstrs]
  show number 1 (is ++ js) = number 1 is ++ (number 1 js).map _
  rw [number_append, number_add]

end Program

/-! ## the main statement -/

/-- what is assembled behind a text with a header -/
theorem assemble_append_of_opensProgram (a b : List Char) (ha : a.getLast? = some '\n')
    (l : CodeLine) (ls : List CodeLine) (hc : codeLines a = l :: ls) (hl : l.opensProgram = true) :
    assemble (a ++ b) = ((instrsOfLines ls).bind fun is =>
      (instrsOfLines (numberedLines ((lines a).length + 1) (lines b))).map fun js =>
        is ++ js).map Program.ofInstrs := by
  rw [assemble, codeLines_append a b ha, hc, List.cons_append]
  dsimp only
  rw [if_pos hl, instrsOfLines_append]

theorem lines_ne_nil_of_codeLines (s : List Char) (h : codeLines s ≠ []) :
    0 < (lines s).length := by
  refine List.length_pos_of_ne_nil fun hs => h ?_
  rw [codeLines, hs]
  rfl

/-- lines behind a text are read as behind a header, but for their numbers -/
theorem instrsOfLines_behind (n : Nat) (hn : 0 < n) (ls : List (List Char)) :
    instrsOfLines (numberedLines (n + 1) ls)
      = (instrsOfLines (numberedLines 2 ls)).mapError
          (SourceError.mapLine fun l => l - 1 + n) := by
  have hfrom : n + 1 = 2 + (n - 1) := by omega
  rw [hfrom, instrsOfLines_numberedLines_add]
  cases h : instrsOfLines (numberedLines 2 ls) with
  | ok is => rfl
  | error e =>
    obtain ⟨l, hl, h2, _⟩ := line?_of_instrsOfLines 2 ls e h
    have hcount : l + (n - 1) = l - 1 + n := by omega
    show Except.error _ = Except.error _
    cases e with
    | missingHeader => rfl
    | _ => cases hl; simp only [SourceError.mapLine, hcount]

/-- **The two parts of a text are assembled one after the other.**  The first ends its last line and
has a line with words.  If it is refused, so is the whole, for the same reason.  Otherwise the second
is assembled as if it stood behind a header of its own: its instructions follow, with their orders
counted on, or the whole is refused for the same reason, with its line counted on. -/
theorem assemble_append (a b : List Char) (ha : a.getLast? = some '\n') (hc : codeLines a ≠ []) :
    (∀ e, assemble a = .error e → assemble (a ++ b) = .error e) ∧
    ∀ p, assemble a = .ok p →
      (∀ q, assemble (header.toList ++ '\n' :: b) = .ok q → ∃ r, assemble (a ++ b) = .ok r ∧
        r.records.toList = p.records.toList ++
          q.records.toList.map fun x => ⟨x.order + p.size, x.instr⟩) ∧
      (∀ e, assemble (header.toList ++ '\n' :: b) = .error e →
        assemble (a ++ b) = .error (e.mapLine fun l => l - 1 + (lines a).length) ∧
          ∃ l, e.line? = some l ∧ 2 ≤ l ∧ l ≤ (lines b).length + 1) := by
  have hlines := lines_ne_nil_of_codeLines a hc
  obtain ⟨l, ls, hcode⟩ := List.exists_cons_of_ne_nil hc
  have hfirst : assemble a = if l.opensProgram then (instrsOfLines ls).map Program.ofInstrs
      else .error (.invalidHeader l.number (String.ofList (unwords (l.word :: l.rest)))) := by
    rw [assemble, hcode]
  by_cases hl : l.opensProgram = true
  · have hboth := assemble_append_of_opensProgram a b ha l ls hcode hl
    rw [instrsOfLines_behind _ hlines] at hboth
    rw [hfirst, if_pos hl, hboth, assemble_header]
    cases hls : instrsOfLines ls with
    | error e =>
      refine ⟨fun e' he => ?_, fun p hp => by cases hp⟩
      cases he
      rfl
    | ok is =>
      refine ⟨fun e he => (by cases he), fun p hp => ?_⟩
      cases hp
      cases hb : instrsOfLines (numberedLines 2 (lines b)) with
      | ok js =>
        refine ⟨fun q hq => ?_, fun e he => by cases he⟩
        cases hq
        exact ⟨_, rfl, Program.records_ofInstrs_append is js⟩
      | error e =>
        refine ⟨fun q hq => (by cases hq), fun e' he => ?_⟩
        cases he
        obtain ⟨k, hk, h2, hlt⟩ := line?_of_instrsOfLines 2 (lines b) e hb
        exact ⟨rfl, k, hk, h2, by omega⟩
  · have hboth : assemble (a ++ b) = assemble a := by
      rw [hfirst, if_neg hl, assemble, codeLines_append a b ha, hcode, List.cons_append]
      exact if_neg hl
    rw [hboth, hfirst, if_neg hl]
    exact ⟨fun e he => he, fun p hp => by cases hp⟩

/-- one instruction behind a comment, and then another one or a word that is no opcode -/
theorem assemble_append_comment :
    ∃ p q r, assemble "# a\r\n.ippcode24\n\nCREATEFRAME # b\n".toList = .ok p ∧
      assemble ".IPPcode24\nPUSHFRAME".toList = .ok q ∧
      assemble ".IPPcode24\n\n.IPPcode24\n".toList = .error (.unknownOpcode 3 ".IPPcode24") ∧
      assemble ("# a\r\n.ippcode24\n\nCREATEFRAME # b\n" ++ "PUSHFRAME").toList = .ok r ∧
      r.records.toList = p.records.toList ++
        q.records.toList.map (fun x => ⟨x.order + p.size, x.instr⟩) ∧
      assemble ("# a\r\n.ippcode24\n\nCREATEFRAME # b\n" ++ "\n.IPPcode24\n").toList
        = .error (.unknownOpcode 6 ".IPPcode24") := by
  have hp : assemble "# a\r\n.ippcode24\n\nCREATEFRAME # b\n".toList
      = .ok (Program.ofInstrs [.createFrame]) := by rfl
  have hq : assemble (header.toList ++ '\n' :: "PUSHFRAME".toList)
      = .ok (Program.ofInstrs [.pushFrame]) := by rfl
  have he : assemble (header.toList ++ '\n' :: "\n.IPPcode24\n".toList)
      = .error (.unknownOpcode 3 ".IPPcode24") := by rfl
  have hboth := fun b => (assemble_append "# a\r\n.ippcode24\n\nCREATEFRAME # b\n".toList b
    (by decide) (by decide)).2 _ hp
  obtain ⟨r, hr, hrecords⟩ := (hboth "PUSHFRAME".toList).1 _ hq
  obtain ⟨hwrong, _⟩ := (hboth "\n.IPPcode24\n".toList).2 _ he
  exact ⟨_, _, r, hp, hq, he, hr, hrecords, hwrong⟩

end IPPcode24
