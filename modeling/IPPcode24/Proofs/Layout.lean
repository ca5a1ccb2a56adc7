import IPPcode24.Channel.Input
import IPPcode24.Source

/-!
# Lines and words

Words with a space between each two are read back as they are, and so are lines of such words, if
no word holds white space or starts a comment.

* `IsWord w`                     `w` is one word of a line
* `words_append_cons`            white space parts words
* `tokens_unwords`               **the words of a line are read back**
* `exists_unwords_cut`           where a word of a line is cut short
* `exists_tokens_append`         the words before the cut are read back
* `lines_append_newline`         a line is read back
* `cut_induction`                a list is empty, or one line, or a line and a list behind it
* `lines_line`, `lines_last`     the lines of a text, from the first on
-/

namespace IPPcode24

/-- the character may stand in a word of a line -/
def isPlain (c : Char) : Bool := !isBlank c && c != '#'

def IsWord (w : List Char) : Prop := w ≠ [] ∧ ∀ c ∈ w, isPlain c = true

theorem isPlain_iff (c : Char) : isPlain c = true ↔ isBlank c = false ∧ c ≠ '#' := by
  rw [isPlain, Bool.and_eq_true, Bool.not_eq_true', bne_iff_ne]

/-! ## pieces and words -/

section
variable (p : Char → Bool)

theorem pieces_of_forall (w : List Char) (h : ∀ c ∈ w, p c = false) : pieces p w = [w] := by
  induction w with
  | nil => rfl
  | cons c w ih =>
    obtain ⟨hc, hw⟩ := List.forall_mem_cons.mp h
    rw [pieces, hc, ih hw]
    rfl

theorem pieces_append_cons (c : Char) (hc : p c = true) (a b : List Char) :
    pieces p (a ++ c :: b) = pieces p a ++ pieces p b := by
  induction a with
  | nil => exact pieces_cons_of_pos p c b hc
  | cons d a ih =>
    rw [List.cons_append, pieces, pieces, ih]
    split
    · rfl
    · -- the pieces of `a` are not none, so `d` joins the first of them on both sides
      obtain ⟨w, ws, hw⟩ := List.exists_cons_of_ne_nil (pieces_ne_nil p a)
      rw [hw]
      rfl

theorem forall_of_mem_pieces (s w : List Char) (h : w ∈ pieces p s) :
    ∀ c ∈ w, p c = false ∧ c ∈ s := by
  induction s generalizing w with
  | nil =>
    rw [pieces, List.mem_singleton] at h
    subst h
    exact List.forall_mem_nil _
  | cons d s ih =>
    have hlater : ∀ v ∈ pieces p s, ∀ c ∈ v, p c = false ∧ c ∈ d :: s := fun v hv c hc =>
      ⟨(ih v hv c hc).1, List.mem_cons_of_mem _ (ih v hv c hc).2⟩
    rw [pieces] at h
    split at h
    · rcases List.mem_cons.mp h with rfl | h
      · exact List.forall_mem_nil _
      · exact hlater w h
    · next hd =>
      obtain ⟨v, vs, hv⟩ := List.exists_cons_of_ne_nil (pieces_ne_nil p s)
      rw [hv] at h hlater
      rcases List.mem_cons.mp h with rfl | h
      · refine List.forall_mem_cons.mpr ⟨⟨Bool.eq_false_iff.mpr hd, List.mem_cons_self⟩, ?_⟩
        exact hlater v List.mem_cons_self
      · exact hlater w (List.mem_cons_of_mem _ h)

end

theorem words_of_isWord (w : List Char) (h : IsWord w) : words w = [w] := by
  rw [words, pieces_of_forall isBlank w fun c hc => ((isPlain_iff c).mp (h.2 c hc)).1]
  simp [h.1]

theorem words_append_cons (c : Char) (hc : isBlank c = true) (a b : List Char) :
    words (a ++ c :: b) = words a ++ words b := by
  rw [words, pieces_append_cons isBlank c hc, List.filter_append]
  rfl

theorem forall_of_mem_words (s w : List Char) (h : w ∈ words s) :
    w ≠ [] ∧ ∀ c ∈ w, isBlank c = false ∧ c ∈ s := by
  obtain ⟨hw, hne⟩ := List.mem_filter.mp h
  refine ⟨?_, forall_of_mem_pieces isBlank s w hw⟩
  rintro rfl
  cases hne

/-! ## words joined -/

theorem unwords_cons (w : List Char) (ws : List (List Char)) (h : ws ≠ []) :
    unwords (w :: ws) = w ++ ' ' :: unwords ws := by
  rw [unwords, List.intercalate_cons_of_ne_nil h, List.append_assoc]
  rfl

theorem unwords_singleton (w : List Char) : unwords [w] = w := List.intercalate_singleton

theorem words_unwords (ws : List (List Char)) (h : ∀ w ∈ ws, IsWord w) :
    words (unwords ws) = ws := by
  induction ws with
  | nil => rfl
  | cons w ws ih =>
    obtain ⟨hw, hws⟩ := List.forall_mem_cons.mp h
    cases ws with
    | nil => rw [unwords_singleton, words_of_isWord w hw]
    | cons w' ws =>
      rw [unwords_cons _ _ (List.cons_ne_nil w' ws), words_append_cons ' ' (by decide),
        words_of_isWord w hw, ih hws]
      rfl

/-- what holds of the characters of all words and of a space holds of those of the line -/
theorem forall_mem_unwords (P : Char → Prop) (hspace : P ' ') (ws : List (List Char))
    (h : ∀ w ∈ ws, ∀ c ∈ w, P c) : ∀ c ∈ unwords ws, P c := by
  induction ws with
  | nil => exact List.forall_mem_nil _
  | cons w ws ih =>
    obtain ⟨hw, hws⟩ := List.forall_mem_cons.mp h
    cases ws with
    | nil => rwa [unwords_singleton]
    | cons w' ws =>
      rw [unwords_cons _ _ (List.cons_ne_nil w' ws)]
      intro c hc
      rcases List.mem_append.mp hc with hc | hc
      · exact hw c hc
      · rcases List.mem_cons.mp hc with rfl | hc
        · exact hspace
        · exact ih hws c hc

theorem forall_mem_unwords_of_isWord (ws : List (List Char)) (h : ∀ w ∈ ws, IsWord w) :
    ∀ c ∈ unwords ws, c ≠ '#' ∧ c ≠ '\n' ∧ c ≠ '\r' := by
  refine forall_mem_unwords _ (by decide) ws fun w hw c hc => ?_
  obtain ⟨hb, hcomment⟩ := (isPlain_iff c).mp ((h w hw).2 c hc)
  refine ⟨hcomment, ?_, ?_⟩
  · rintro rfl
    cases hb
  · rintro rfl
    cases hb

theorem unwords_append_singleton (ws : List (List Char)) (a b : List Char) :
    unwords (ws ++ [a ++ b]) = unwords (ws ++ [a]) ++ b := by
  induction ws with
  | nil => rw [List.nil_append, List.nil_append, unwords_singleton, unwords_singleton]
  | cons w ws ih =>
    have hne : ∀ c : List Char, ws ++ [c] ≠ [] := fun c =>
      List.append_ne_nil_of_right_ne_nil ws (List.cons_ne_nil c [])
    rw [List.cons_append, List.cons_append, unwords_cons _ _ (hne _), unwords_cons _ _ (hne _), ih,
      List.append_assoc]
    rfl

theorem exists_unwords_append (ws ws' : List (List Char)) (w : List Char) :
    ∃ s, unwords (ws ++ w :: ws') = unwords (ws ++ [w]) ++ s ∧ (s = [] ∨ ∃ s', s = ' ' :: s') := by
  cases ws' with
  | nil => exact ⟨[], (List.append_nil _).symm, .inl rfl⟩
  | cons w' ws' =>
    refine ⟨' ' :: unwords (w' :: ws'), ?_, .inr ⟨_, rfl⟩⟩
    induction ws with
    | nil =>
      rw [List.nil_append, List.nil_append, unwords_cons _ _ (List.cons_ne_nil w' ws'),
        unwords_singleton]
    | cons v ws ih =>
      have hne : ∀ vs : List (List Char), ws ++ w :: vs ≠ [] := fun vs =>
        List.append_ne_nil_of_right_ne_nil ws (List.cons_ne_nil w vs)
      rw [List.cons_append, List.cons_append, unwords_cons _ _ (hne _), unwords_cons _ _ (hne _),
        ih, List.append_assoc]
      rfl

/-- a line of words that is read only as far as `w` goes on with a character that ends the word -/
theorem exists_unwords_cut (ws ws' : List (List Char)) (w s : List Char) :
    ∃ c s', isPlain c = false ∧ unwords (ws ++ w :: ws') ++ '\n' :: s
      = unwords (ws ++ [w.takeWhile isPlain]) ++ c :: s' := by
  obtain ⟨r, hr, hspace⟩ := exists_unwords_append ws ws' w
  have hcut : unwords (ws ++ [w])
      = unwords (ws ++ [w.takeWhile isPlain]) ++ w.dropWhile isPlain := by
    rw [← unwords_append_singleton, List.takeWhile_append_dropWhile]
  rw [hr, hcut, List.append_assoc, List.append_assoc]
  cases hd : w.dropWhile isPlain with
  | cons c b =>
    have hc := List.head?_dropWhile_not isPlain w
    rw [hd] at hc
    exact ⟨c, b ++ (r ++ '\n' :: s), hc, rfl⟩
  | nil =>
    rcases hspace with rfl | ⟨r', rfl⟩
    · exact ⟨'\n', s, by decide, rfl⟩
    · exact ⟨' ', r' ++ '\n' :: s, by decide, rfl⟩

/-! ## the words of a line -/

theorem tokens_append (a l : List Char) (ha : ∀ c ∈ a, c ≠ '#') :
    tokens (a ++ l) = words (a ++ l.takeWhile fun c => c != '#') := by
  rw [tokens, List.takeWhile_append_of_pos fun c hc => bne_iff_ne.mpr (ha c hc)]

/-- **The words of a line are read back.** -/
theorem tokens_unwords (ws : List (List Char)) (h : ∀ w ∈ ws, IsWord w) :
    tokens (unwords ws) = ws := by
  have hline := tokens_append (unwords ws) [] fun c hc => (forall_mem_unwords_of_isWord ws h c hc).1
  rw [List.append_nil, List.takeWhile_nil, List.append_nil] at hline
  rw [hline, words_unwords ws h]

/-- so are those before a character that is not plain, whatever comes after it -/
theorem exists_tokens_append (a l : List Char) (ha : ∀ c ∈ a, c ≠ '#') (c : Char)
    (hc : isPlain c = false) (hl : l = [] ∨ ∃ l', l = c :: l') :
    ∃ more, tokens (a ++ l) = words a ++ more := by
  rw [tokens_append a l ha]
  rcases hl with rfl | ⟨l', rfl⟩
  · exact ⟨[], by simp⟩
  · by_cases hcomment : c = '#'
    · subst hcomment
      exact ⟨[], by simp⟩
    · have hb : isBlank c = true := by
        cases hb : isBlank c with
        | true => rfl
        | false => rw [(isPlain_iff c).mpr ⟨hb, hcomment⟩] at hc; cases hc
      rw [List.takeWhile_cons, if_pos (bne_iff_ne.mpr hcomment), words_append_cons c hb]
      exact ⟨_, rfl⟩

theorem forall_of_mem_tokens (l w : List Char) (h : w ∈ tokens l) : IsWord w := by
  obtain ⟨hne, hw⟩ := forall_of_mem_words _ w h
  refine ⟨hne, fun c hc => (isPlain_iff c).mpr ⟨(hw c hc).1, ?_⟩⟩
  exact bne_iff_ne.mp (List.all_eq_true.mp List.all_takeWhile c (hw c hc).2)

/-! ## the lines of a text -/

theorem lines_cons (c : Char) (s : List Char) (hn : c ≠ '\n')
    (hr : ∀ t, c = '\r' → s ≠ '\n' :: t) :
    lines (c :: s) = match lines s with
      | [] => [[c]]
      | l :: ls => (c :: l) :: ls := by
  rw [lines.eq_def]
  split
  · next h => cases h
  · next h => cases h; exact absurd rfl hn
  · next t h => cases h; exact absurd rfl (hr t rfl)
  · next h => cases h; rfl

theorem lines_append (a s : List Char) (ha : ∀ c ∈ a, c ≠ '\n' ∧ c ≠ '\r') (l : List Char)
    (ls : List (List Char)) (hs : lines s = l :: ls) : lines (a ++ s) = (a ++ l) :: ls := by
  induction a with
  | nil => exact hs
  | cons c a ih =>
    obtain ⟨hc, ha⟩ := List.forall_mem_cons.mp ha
    rw [List.cons_append, lines_cons c _ hc.1 fun _ h => absurd h hc.2, ih ha]
    rfl

theorem lines_append_newline (a s : List Char) (ha : ∀ c ∈ a, c ≠ '\n' ∧ c ≠ '\r') :
    lines (a ++ '\n' :: s) = a :: lines s := by
  rw [lines_append a _ ha [] (lines s) (lines_lf s), List.append_nil]

/-- the first line is empty if it does not begin as the text does -/
theorem exists_lines_cons (c : Char) (s : List Char) :
    ∃ l ls, lines (c :: s) = l :: ls ∧ (l = [] ∨ ∃ l', l = c :: l') := by
  rw [lines.eq_def]
  split
  · next h => cases h
  · exact ⟨[], _, rfl, .inl rfl⟩
  · exact ⟨[], _, rfl, .inl rfl⟩
  · next d t _ _ h =>
    cases h
    cases lines s with
    | nil => exact ⟨[c], [], rfl, .inr ⟨[], rfl⟩⟩
    | cons l ls => exact ⟨c :: l, ls, rfl, .inr ⟨l, rfl⟩⟩

/-! ## one line after the other -/

/-- a list is empty, or one line without the end `x`, or a line with it and what is behind -/
@[elab_as_elim]
theorem cut_induction {α : Type} (x : α) {P : List α → Prop} (nil : P [])
    (last : ∀ s, s ≠ [] → x ∉ s → P s) (line : ∀ p r, x ∉ p → P r → P (p ++ x :: r))
    (s : List α) : P s := by
  induction hn : s.length using Nat.strongRecOn generalizing s with
  | ind n ih =>
    by_cases hx : x ∈ s
    · obtain ⟨p, r, rfl, hp⟩ := List.eq_append_cons_of_mem hx
      refine line p r hp (ih r.length ?_ r rfl)
      rw [← hn, List.length_append, List.length_cons]
      omega
    · by_cases hs : s = []
      · exact hs ▸ nil
      · exact last s hs hx

theorem Input.dropReturn_cons (c : Char) (s : List Char) (h : c = '\r' → s ≠ []) :
    dropReturn (c :: s) = c :: dropReturn s := by
  cases s with
  | nil =>
    refine if_neg fun hc => h ?_ rfl
    exact Option.some.inj hc
  | cons d s =>
    rw [dropReturn, dropReturn, List.getLast?_cons_cons]
    split <;> rfl

/-- the first line of a text loses its line feed and one carriage return before it -/
theorem lines_line (p r : List Char) (hp : '\n' ∉ p) :
    lines (p ++ '\n' :: r) = Input.dropReturn p :: lines r := by
  induction p with
  | nil => exact lines_lf r
  | cons c p ih =>
    rw [List.mem_cons, not_or] at hp
    by_cases hc : c = '\r' ∧ p = []
    · obtain ⟨rfl, rfl⟩ := hc
      exact lines_cr_lf r
    · have hcr : ∀ t, c = '\r' → p ++ '\n' :: r ≠ '\n' :: t := by
        intro t h hstart
        cases p with
        | nil => exact hc ⟨h, rfl⟩
        | cons d p =>
          cases hstart
          exact hp.2 List.mem_cons_self
      rw [List.cons_append, lines_cons c _ (Ne.symm hp.1) hcr, ih hp.2,
        Input.dropReturn_cons c p fun h hnil => hc ⟨h, hnil⟩]

/-- a last line without a line feed is kept as it is -/
theorem lines_last (s : List Char) (hs : '\n' ∉ s) (hne : s ≠ []) : lines s = [s] := by
  induction s with
  | nil => exact absurd rfl hne
  | cons c s ih =>
    rw [List.mem_cons, not_or] at hs
    have hcr : ∀ t, c = '\r' → s ≠ '\n' :: t := by
      rintro t _ rfl
      exact hs.2 List.mem_cons_self
    rw [lines_cons c s (Ne.symm hs.1) hcr]
    cases s with
    | nil => rfl
    | cons d s => rw [ih hs.2 (List.cons_ne_nil d s)]

end IPPcode24
