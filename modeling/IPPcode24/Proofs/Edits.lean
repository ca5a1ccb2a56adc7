import IPPcode24.Proofs.Concatenation

/-!
# Edits that do not matter

What is assembled depends on the words of each line and on nothing else of it: not on the white
space around and between them, not on the comment behind them, not on how the line ends.  The case
of letters in the first word does not matter either, but a report of that word shows it as it is.

* `Respaced l l'`          the line is written with other white space or another comment
* `Recased l l'`           the line is written with letters of another case in its first word
* `EditedLines R s t`      the lines of `t` are edits of those of `s`, in the way `R`
* `tidy s`                 every line with its words alone, one space between each two
* `tokens_insert_blank`    white space where no word goes on is none of the words
* `EditedLines.forall₂`    **what one edited line keeps is kept by all lines with words**
* `CodeLine.Respelled`     two lines that differ in the case of their first words
* `instrsOfLines_respelled`   they stand for the same instructions, or fail on the same line

Main statement, `assemble_edited`.
-/

namespace IPPcode24

/-! ## edits of a line -/

/-- no word goes on from `x` to `y`: there is a comment before, or one of them ends or begins with
white space, or `y` begins with a comment, or there is nothing on one side -/
def IsGap (x y : List Char) : Prop :=
  '#' ∈ x ∨ (∀ c, x.getLast? = some c → isBlank c = true) ∨
    ∀ c, y.head? = some c → isPlain c = false

inductive Respaced : List Char → List Char → Prop where
  | same (l : List Char) : Respaced l l
  /-- the words alone -/
  | words (l : List Char) : Respaced l (unwords (tokens l))
  /-- a comment behind the line -/
  | comment (l c : List Char) : Respaced l (l ++ '#' :: c)
  /-- white space at an end of the line or between two words -/
  | blank (x w y : List Char) (hgap : IsGap x y) (hw : ∀ c ∈ w, isBlank c = true) :
    Respaced (x ++ y) (x ++ (w ++ y))

inductive Recased : List Char → List Char → Prop where
  | same (l : List Char) : Recased l l
  /-- the first word, up to where it ends -/
  | word (x w w' y : List Char) (hx : ∀ c ∈ x, isBlank c = true) (hw : IsWord w)
      (hcase : sameText w' w = true) (hy : ∀ c, y.head? = some c → isPlain c = false) :
    Recased (x ++ (w ++ y)) (x ++ (w' ++ y))

/-! ## edits of a text -/

def lineEnds : List (List Char) := [['\n'], ['\r', '\n']]

/-- line by line; the last line need not have an end, and an end may become the other one -/
inductive EditedLines (R : List Char → List Char → Prop) : List Char → List Char → Prop where
  | nil : EditedLines R [] []
  | last (l l' : List Char) (hl : '\n' ∉ l) (hl' : '\n' ∉ l') (h : R l l') : EditedLines R l l'
  | line (l l' e e' s t : List Char) (hl : '\n' ∉ l) (hl' : '\n' ∉ l') (h : R l l')
      (he : e ∈ lineEnds) (he' : e' ∈ lineEnds) (hs : EditedLines R s t) :
    EditedLines R (l ++ (e ++ s)) (l' ++ (e' ++ t))

/-- every line with its words alone, one space between each two -/
def tidy (s : List Char) : List Char :=
  ['\n'].intercalate ((pieces (fun c => c == '\n') s).map fun l => unwords (tokens l))

/-! ## words where there is a gap -/

theorem words_append_blank (w y : List Char) (hw : ∀ c ∈ w, isBlank c = true) :
    words (w ++ y) = words y := by
  induction w with
  | nil => rfl
  | cons c w ih =>
    obtain ⟨hc, hw⟩ := List.forall_mem_cons.mp hw
    rw [List.cons_append, words_cons_blank c _ hc, ih hw]

theorem words_append_of_getLast? (x y : List Char)
    (hx : ∀ c, x.getLast? = some c → isBlank c = true) : words (x ++ y) = words x ++ words y := by
  cases hlast : x.getLast? with
  | none => rw [List.getLast?_eq_none_iff.mp hlast]; rfl
  | some c =>
    obtain ⟨a, rfl⟩ := List.getLast?_eq_some_iff.mp hlast
    have hc := hx c hlast
    rw [List.append_assoc, List.singleton_append, words_append_cons c hc, words_append_cons c hc,
      words_nil, List.append_nil]

theorem words_append_of_head? (x y : List Char)
    (hy : ∀ c, y.head? = some c → isBlank c = true) : words (x ++ y) = words x ++ words y := by
  cases y with
  | nil => rw [List.append_nil, words_nil, List.append_nil]
  | cons c y =>
    have hc := hy c rfl
    rw [words_append_cons c hc, words_cons_blank c y hc]

/-- what stands behind a comment sign is none of the words -/
theorem tokens_append_comment (l c : List Char) : tokens (l ++ '#' :: c) = tokens l := by
  rw [tokens, tokens, List.takeWhile_append]
  split
  · next h =>
    have hall : l.takeWhile (fun c => c != '#') = l :=
      (List.takeWhile_prefix _).eq_of_length h
    rw [hall]
    exact congrArg words (List.append_nil l)
  · rfl

/-- the words on two sides of a gap -/
theorem tokens_append_of_gap (x y : List Char) (hx : '#' ∉ x) (hgap : IsGap x y) :
    tokens (x ++ y) = words x ++ tokens y := by
  have hplain : ∀ c ∈ x, c ≠ '#' := by
    rintro c hc rfl
    exact hx hc
  rw [tokens_append x y hplain, tokens]
  rcases hgap with hcomment | hlast | hhead
  · exact absurd hcomment hx
  · exact words_append_of_getLast? x _ hlast
  · refine words_append_of_head? x _ fun c hc => ?_
    rw [List.head?_takeWhile, Option.filter_eq_some_iff] at hc
    cases hb : isBlank c with
    | true => rfl
    | false =>
      have hyes := (isPlain_iff c).mpr ⟨hb, bne_iff_ne.mp hc.2⟩
      rw [hhead c hc.1] at hyes
      cases hyes

/-- **White space where no word goes on is none of the words.** -/
theorem tokens_insert_blank (x w y : List Char) (hgap : IsGap x y)
    (hw : ∀ c ∈ w, isBlank c = true) : tokens (x ++ (w ++ y)) = tokens (x ++ y) := by
  by_cases hx : '#' ∈ x
  · obtain ⟨a, b, rfl, _⟩ := List.eq_append_cons_of_mem hx
    rw [List.append_assoc, List.append_assoc, List.cons_append, List.cons_append,
      tokens_append_comment, tokens_append_comment]
  · have hno : ∀ c ∈ w, c ≠ '#' := by
      rintro c hc rfl
      have hb := hw '#' hc
      revert hb
      decide
    have hbehind : tokens (w ++ y) = tokens y := by
      rw [tokens_append w y hno, words_append_blank w _ hw, tokens]
    cases w with
    | nil => rfl
    | cons c w =>
      have hc : ∀ d, (c :: w ++ y).head? = some d → isPlain d = false := by
        intro d hd
        cases hd
        rw [isPlain, hw c List.mem_cons_self]
        rfl
      rw [tokens_append_of_gap x _ hx (.inr (.inr hc)), hbehind, tokens_append_of_gap x y hx hgap]

theorem Respaced.tokens_eq {l l' : List Char} (h : Respaced l l') : tokens l' = tokens l := by
  cases h with
  | same => rfl
  | words => exact tokens_unwords _ fun w hw => forall_of_mem_tokens l w hw
  | comment _ c => exact tokens_append_comment l c
  | blank x w y hgap hw => exact tokens_insert_blank x w y hgap hw

/-! ## letters of another case -/

/-- a letter and its capital are both plain -/
theorem isPlain_toUpper (c : Char) : isPlain c.toUpper = isPlain c := by
  have hsmall : ∀ n < 128, isPlain (Char.ofNat n).toUpper = isPlain (Char.ofNat n) := by
    decide +kernel
  by_cases hc : c.toNat < 128
  · have h := hsmall c.toNat hc
    rwa [Char.ofNat_toNat] at h
  · have hno : ¬ ('a'.val ≤ c.val ∧ c.val ≤ 'z'.val) := by
      intro h
      have hle : c.toNat ≤ 122 := h.2
      omega
    have hsame : c.toUpper = c := dif_neg hno
    rw [hsame]

theorem isWord_of_sameText (w w' : List Char) (hw : IsWord w) (hcase : sameText w' w = true) :
    IsWord w' := by
  have hup : w'.map Char.toUpper = w.map Char.toUpper := (sameText_iff w' w).mp hcase
  refine ⟨?_, fun c hc => ?_⟩
  · rintro rfl
    exact hw.1 (List.map_eq_nil_iff.mp hup.symm)
  · have hmem : c.toUpper ∈ w.map Char.toUpper := hup ▸ List.mem_map_of_mem hc
    obtain ⟨d, hd, hdc⟩ := List.mem_map.mp hmem
    rw [← isPlain_toUpper, ← hdc, isPlain_toUpper]
    exact hw.2 d hd

/-- the first word of a line, up to where it ends -/
theorem tokens_first_word (x w y : List Char) (hx : ∀ c ∈ x, isBlank c = true) (hw : IsWord w)
    (hy : ∀ c, y.head? = some c → isPlain c = false) :
    tokens (x ++ (w ++ y)) = w :: tokens y := by
  have hcomment : '#' ∉ w := fun h => ((isPlain_iff '#').mp (hw.2 '#' h)).2 rfl
  have hgap : IsGap [] (w ++ y) := .inr (.inl fun c hc => by cases hc)
  have hbefore := tokens_insert_blank [] x (w ++ y) hgap hx
  rw [List.nil_append, List.nil_append] at hbefore
  rw [hbefore, tokens_append_of_gap w y hcomment (.inr (.inr hy)), words_of_isWord w hw]
  rfl

/-- two lines that differ at most in the case of their first words -/
structure CodeLine.Respelled (l l' : CodeLine) : Prop where
  number : l'.number = l.number
  word : sameText l'.word l.word = true
  rest : l'.rest = l.rest

theorem CodeLine.Respelled.refl (l : CodeLine) : l.Respelled l :=
  ⟨rfl, (sameText_iff _ _).mpr rfl, rfl⟩

/-! ## lines and their numbers -/

theorem numberedLines_cons_eq (n : Nat) (l : List Char) (ls : List (List Char)) :
    numberedLines n (l :: ls) = numberedLines n [l] ++ numberedLines (n + 1) ls :=
  numberedLines_append n [l] ls

/-- lines with the same words are numbered alike -/
theorem numberedLines_congr (n : Nat) (l l' : List Char) (h : tokens l' = tokens l) :
    numberedLines n [l'] = numberedLines n [l] := by
  simp only [numberedLines, h]

theorem tokens_append_return (l : List Char) : tokens (l ++ ['\r']) = tokens l := by
  have hgap : IsGap l [] := .inr (.inr fun c hc => by cases hc)
  have hinsert := tokens_insert_blank l ['\r'] [] hgap (List.forall_mem_singleton.mpr rfl)
  rwa [List.append_nil, List.append_nil] at hinsert

theorem tokens_dropReturn (l : List Char) : tokens (Input.dropReturn l) = tokens l := by
  rw [Input.dropReturn]
  split
  · next h =>
    obtain ⟨a, rfl⟩ := List.getLast?_eq_some_iff.mp h
    rw [List.dropLast_concat, tokens_append_return]
  · rfl

theorem numberedLines_last (n : Nat) (l : List Char) (hl : '\n' ∉ l) :
    numberedLines n (lines l) = numberedLines n [l] := by
  cases l with
  | nil => rfl
  | cons c l => rw [lines_last (c :: l) hl (List.cons_ne_nil c l)]

/-- the carriage return of a line end is none of the words, so all ends of a line are alike -/
theorem numberedLines_line (n : Nat) (l e s : List Char) (hl : '\n' ∉ l) (he : e ∈ lineEnds) :
    numberedLines n (lines (l ++ (e ++ s)))
      = numberedLines n [l] ++ numberedLines (n + 1) (lines s) := by
  have hline : ∀ p, '\n' ∉ p → tokens p = tokens l → numberedLines n (lines (p ++ '\n' :: s))
      = numberedLines n [l] ++ numberedLines (n + 1) (lines s) := by
    intro p hp htokens
    rw [lines_line p s hp, numberedLines_cons_eq, numberedLines_congr n l _ (by
      rw [tokens_dropReturn, htokens])]
  rw [lineEnds, List.mem_cons, List.mem_singleton] at he
  rcases he with rfl | rfl
  · exact hline l hl rfl
  · have hp : '\n' ∉ l ++ ['\r'] := by
      rw [List.mem_append, not_or]
      exact ⟨hl, by decide⟩
    have hboth := hline (l ++ ['\r']) hp (tokens_append_return l)
    rwa [List.append_assoc] at hboth

/-- **What one edited line keeps is kept by all lines with words.** -/
theorem EditedLines.forall₂ {R : List Char → List Char → Prop} {Q : CodeLine → CodeLine → Prop}
    (hR : ∀ n l l', R l l' → List.Forall₂ Q (numberedLines n [l]) (numberedLines n [l']))
    {s t : List Char} (h : EditedLines R s t) : ∀ n,
    List.Forall₂ Q (numberedLines n (lines s)) (numberedLines n (lines t)) := by
  induction h with
  | nil => exact fun _ => .nil
  | last l l' hl hl' hl₂ =>
    intro n
    rw [numberedLines_last n l hl, numberedLines_last n l' hl']
    exact hR n l l' hl₂
  | line l l' e e' s t hl hl' hl₂ he he' _ ih =>
    intro n
    rw [numberedLines_line n l e s hl he, numberedLines_line n l' e' t hl' he']
    exact List.rel_append (hR n l l' hl₂) (ih (n + 1))

theorem codeLines_respaced {s t : List Char} (h : EditedLines Respaced s t) :
    codeLines t = codeLines s := by
  have hlines := h.forall₂ (Q := fun l l' => l' = l) (fun n l l' hl => by
    rw [numberedLines_congr n l l' hl.tokens_eq, List.forall₂_same]
    exact fun _ _ => rfl) 1
  exact (List.forall₂_eq_eq_eq ▸ hlines.flip : codeLines t = codeLines s)

theorem codeLines_recased {s t : List Char} (h : EditedLines Recased s t) :
    List.Forall₂ CodeLine.Respelled (codeLines s) (codeLines t) := by
  refine h.forall₂ (fun n l l' hl => ?_) 1
  cases hl with
  | same => exact List.forall₂_same.mpr fun l _ => .refl l
  | word x w w' y hx hw hcase hy =>
    have hw' := isWord_of_sameText w w' hw hcase
    rw [numberedLines_cons n _ [] w _ (tokens_first_word x w y hx hw hy),
      numberedLines_cons n _ [] w' _ (tokens_first_word x w' y hx hw' hy)]
    exact .cons ⟨rfl, hcase, rfl⟩ .nil

/-! ## instructions of respelled lines -/

/-- the same result, or failures on the same line -/
inductive SameOnLine {α : Type} : Except SourceError α → Except SourceError α → Prop where
  | ok (a : α) : SameOnLine (.ok a) (.ok a)
  | error (e e' : SourceError) (h : e'.line? = e.line?) : SameOnLine (.error e) (.error e')

namespace SameOnLine

section
variable {α β : Type} {r q : Except SourceError α}

theorem map (f : α → β) (h : SameOnLine r q) : SameOnLine (r.map f) (q.map f) := by
  cases h with
  | ok a => exact .ok (f a)
  | error e e' h => exact .error e e' h

theorem eq_ok_iff (h : SameOnLine r q) (a : α) : q = .ok a ↔ r = .ok a := by
  cases h with
  | ok b => rfl
  | error e e' h => exact ⟨fun hq => (nomatch hq), fun hr => (nomatch hr)⟩

theorem exists_error (h : SameOnLine r q) (e : SourceError) (he : r = .error e) :
    ∃ e', q = .error e' ∧ e'.line? = e.line? := by
  cases h with
  | ok a => cases he
  | error e₀ e' h =>
    cases he
    exact ⟨e', rfl, h⟩

end
end SameOnLine

theorem Opcode.ofMnemonic?_congr (w w' : List Char) (h : sameText w' w = true) :
    Opcode.ofMnemonic? w' = Opcode.ofMnemonic? w := by
  rw [Opcode.ofMnemonic?, Opcode.ofMnemonic?, (sameText_iff w' w).mp h]

section
variable {l l' : CodeLine} (h : l.Respelled l')
include h

theorem CodeLine.Respelled.opensProgram : l'.opensProgram = l.opensProgram := by
  rw [CodeLine.opensProgram, CodeLine.opensProgram, h.rest, sameText, sameText,
    (sameText_iff _ _).mp h.word]

theorem CodeLine.Respelled.instr : SameOnLine l.instr l'.instr := by
  rw [CodeLine.instr, CodeLine.instr, Opcode.ofMnemonic?_congr _ _ h.word, h.rest, h.number]
  cases Opcode.ofMnemonic? l.word with
  | none => exact .error _ _ rfl
  | some op =>
    dsimp only
    cases Instr.parse op l.rest with
    | error d => exact .error _ _ rfl
    | ok i => exact .ok i

end

theorem instrsOfLines_respelled (ls ls' : List CodeLine)
    (h : List.Forall₂ CodeLine.Respelled ls ls') :
    SameOnLine (instrsOfLines ls) (instrsOfLines ls') := by
  induction h with
  | nil => exact .ok []
  | @cons l l' ls ls' hl _ ih =>
    rw [instrsOfLines, instrsOfLines]
    have hi := hl.instr
    revert hi
    generalize l.instr = r
    generalize l'.instr = q
    intro hi
    cases hi with
    | ok i => exact ih.map _
    | error e e' he => exact .error e e' he

theorem assemble_recased {s t : List Char} (h : EditedLines Recased s t) :
    SameOnLine (assemble s) (assemble t) := by
  have hlines := codeLines_recased h
  rw [assemble, assemble]
  generalize codeLines s = ls at hlines
  generalize codeLines t = ls' at hlines
  cases hlines with
  | nil => exact .error _ _ rfl
  | @cons l l' ls ls' hl hls =>
    dsimp only
    rw [hl.opensProgram]
    split
    · exact (instrsOfLines_respelled ls ls' hls).map _
    · exact .error _ _ (congrArg some hl.number)

/-! ## the tidy text -/

theorem newline_not_mem_unwords_tokens (l : List Char) : '\n' ∉ unwords (tokens l) := by
  intro hmem
  exact (forall_mem_unwords_of_isWord _ (forall_of_mem_tokens l) '\n' hmem).2.1 rfl

theorem pieces_newline (s : List Char) (hs : '\n' ∉ s) : pieces (fun c => c == '\n') s = [s] := by
  refine pieces_of_forall _ s fun c hc => beq_eq_false_iff_ne.mpr ?_
  rintro rfl
  exact hs hc

theorem tidy_last (s : List Char) (hs : '\n' ∉ s) : tidy s = unwords (tokens s) := by
  rw [tidy, pieces_newline s hs, List.map_singleton, List.intercalate_singleton]

theorem tidy_line (p r : List Char) (hp : '\n' ∉ p) :
    tidy (p ++ '\n' :: r) = unwords (tokens p) ++ (['\n'] ++ tidy r) := by
  have hne : (pieces (fun c => c == '\n') r).map (fun l => unwords (tokens l)) ≠ [] :=
    fun h => pieces_ne_nil _ r (List.map_eq_nil_iff.mp h)
  rw [tidy, pieces_append_cons _ '\n' rfl, pieces_newline p hp, List.singleton_append, List.map_cons,
    List.intercalate_cons_of_ne_nil hne, List.append_assoc]
  rfl

theorem editedLines_tidy (s : List Char) : EditedLines Respaced s (tidy s) := by
  induction s using cut_induction '\n' with
  | nil => exact .nil
  | last s _ hs =>
    rw [tidy_last s hs]
    exact .last s _ hs (newline_not_mem_unwords_tokens s) (.words s)
  | line p r hp ih =>
    rw [tidy_line p r hp]
    exact .line p _ ['\n'] ['\n'] r _ hp (newline_not_mem_unwords_tokens p) (.words p)
      (by decide) (by decide) ih

/-! ## the main statement -/

/-- **Layout, comments and the case of first words do not matter.**  A text with every line written
as its words alone stands for the same program, or is refused for the same reason on the same line;
so is every text whose lines are edited, as many of them as one likes: by a comment behind the line,
by white space at its ends or between its words, by another line end.  Where the edits change the
case of letters in the first words of lines, the header among them, the program stays the same, and a
text that is refused is so on the same line. -/
theorem assemble_edited (s : List Char) :
    assemble (tidy s) = assemble s ∧
    (∀ t, EditedLines Respaced s t → assemble t = assemble s) ∧
    ∀ t, EditedLines Recased s t →
      (∀ p, assemble t = .ok p ↔ assemble s = .ok p) ∧
      ∀ e, assemble s = .error e → ∃ e', assemble t = .error e' ∧ e'.line? = e.line? := by
  have hrespaced : ∀ t, EditedLines Respaced s t → assemble t = assemble s := by
    intro t ht
    rw [assemble, assemble, codeLines_respaced ht]
  refine ⟨hrespaced _ (editedLines_tidy s), hrespaced, fun t ht => ?_⟩
  have hsame := assemble_recased ht
  exact ⟨hsame.eq_ok_iff, hsame.exists_error⟩

/-- a comment, a carriage return and another line end, and then letters of another case -/
theorem assemble_edited_instruction :
    let s := ".IPPcode24\r\nWRITE GF@a".toList
    let t := ".IPPcode24# b\nWRITE \r GF@a".toList
    let u := ".ippCODE24\nwrItE GF@a".toList
    EditedLines Respaced s t ∧ EditedLines Recased s u ∧
      assemble (tidy t) = .ok (Program.ofInstrs [.print .stdout (.var ⟨.gf, "a"⟩)]) ∧
      assemble t = .ok (Program.ofInstrs [.print .stdout (.var ⟨.gf, "a"⟩)]) ∧
      assemble u = .ok (Program.ofInstrs [.print .stdout (.var ⟨.gf, "a"⟩)]) := by
  intro s t u
  have hs : assemble s = .ok (Program.ofInstrs [.print .stdout (.var ⟨.gf, "a"⟩)]) := by rfl
  have ht : EditedLines Respaced s t := by
    refine .line ".IPPcode24".toList ".IPPcode24# b".toList ['\r', '\n'] ['\n']
      "WRITE GF@a".toList "WRITE \r GF@a".toList ?_ ?_
      (.comment ".IPPcode24".toList " b".toList) ?_ ?_ (.last _ _ ?_ ?_
        (.blank "WRITE ".toList "\r ".toList "GF@a".toList
          (.inr (.inl fun c hc => by cases hc; rfl)) (List.all_eq_true.mp ?_)))
    all_goals decide
  have hu : EditedLines Recased s u := by
    refine .line ".IPPcode24".toList ".ippCODE24".toList ['\r', '\n'] ['\n']
      "WRITE GF@a".toList "wrItE GF@a".toList ?_ ?_
      (.word [] ".IPPcode24".toList ".ippCODE24".toList [] (List.forall_mem_nil _)
        ⟨?_, List.all_eq_true.mp ?_⟩ ?_ (fun c hc => nomatch hc)) ?_ ?_
      (.last _ _ ?_ ?_ (.word [] "WRITE".toList "wrItE".toList " GF@a".toList (List.forall_mem_nil _)
        ⟨?_, List.all_eq_true.mp ?_⟩ ?_ (fun c hc => by cases hc; rfl)))
    all_goals decide
  obtain ⟨_, hrespaced, hrecased⟩ := assemble_edited s
  have htext := (hrespaced t ht).trans hs
  exact ⟨ht, hu, (assemble_edited t).1.trans htext, htext, ((hrecased u hu).1 _).mpr hs⟩

end IPPcode24
