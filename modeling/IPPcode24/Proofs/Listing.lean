import IPPcode24.Proofs.Image

/-!
# Listings that stand for their program

A listing shows strings as they are.  So it stands for the program it lists only if the strings need
no escapes: at the first one that does, the line is read as something else.

* `Operand.IsClean o`          the operand is no string that needs escapes
* `Instr.readsAs_words`        clean instructions are listed as they are written
* `Instr.denotes_of_listed`    what an operand is read back from
* `Instr.isClean_of_listed`    **an instruction that is read back from its line is clean**
* `assemble_listing_iff`       **the listing stands for the program if all its strings are clean**
-/

namespace IPPcode24

/-- the operand is not a string with white space, a `#` or a backslash -/
def Operand.IsClean (o : Operand) : Prop :=
  ∀ s, o = .literal (.string s) → ∀ c ∈ s.toList, c ≠ '\\' ∧ c ≠ '#' ∧ isBlank c = false

def Instr.IsClean (i : Instr) : Prop := ∀ o ∈ i.operands, o.IsClean

/-! ## listings as pages -/

theorem Program.listing_eq_page (p : Program) : p.listing = page (p.instrs.map Instr.words) := by
  have htext : ∀ i : Instr, i.text.toList = unwords i.words := fun i => String.toList_ofList
  rw [Program.listing, List.flatMap_cons, page, body, List.map_map, List.append_assoc]
  simp only [htext]
  rfl

/-! ## clean instructions -/

theorem Value.toList_written (x : Value) (h : x ≠ .nil) :
    x.written.toList = x.ty.name.toList ++ '@' :: x.text.toList := by
  cases x with
  | nil => exact absurd rfl h
  | _ => simp [Value.written]

theorem Operand.toList_text (o : Operand) (h : o.IsClean) : o.text.toList = o.source := by
  cases o with
  | literal x =>
    show x.written.toList = x.ty.name.toList ++ '@' :: x.source
    cases x with
    | nil => rfl
    | int n =>
      rw [(Value.int n).toList_written Value.noConfusion, Value.text, String.toList_ofList,
        Value.source]
    | bool b => rw [(Value.bool b).toList_written Value.noConfusion, Value.source]
    | string s =>
      have hv : ∀ c ∈ s.toList, Escape.isVerbatim c = true := fun c hc =>
        (Escape.isVerbatim_iff c).mpr (h s rfl c hc)
      rw [(Value.string s).toList_written Value.noConfusion, Value.text, Value.source,
        Escape.encode_of_isVerbatim s.toList hv]
    | type t => rw [(Value.type t).toList_written Value.noConfusion, Value.text, Value.source]
  | _ => rfl

theorem Instr.readsAs_words (i : Instr) (hw : i.IsWritable) (h : i.IsClean) :
    ReadsAs i.words i := by
  have hwords : i.words = i.source := by
    rw [Instr.words, Instr.source, List.map_congr_left fun o ho => o.toList_text (h o ho)]
  rw [hwords]
  exact i.readsAs_source hw

/-! ## instructions that are read back -/

/-- a property of the elements of a list that holds of an element if it holds of those before it -/
theorem forall_of_forall_before {α : Type} (P : α → Prop) (l : List α)
    (h : ∀ a x b, l = a ++ x :: b → (∀ y ∈ a, P y) → P x) : ∀ x ∈ l, P x := by
  suffices ∀ b a, l = a ++ b → (∀ y ∈ a, P y) → ∀ y ∈ l, P y from
    this l [] rfl fun y hy => (nomatch hy)
  intro b
  induction b with
  | nil =>
    rintro a rfl ha
    rwa [List.append_nil]
  | cons x b ih =>
    intro a hl ha
    refine ih (a ++ [x]) (by rw [hl, List.append_assoc]; rfl) fun y hy => ?_
    rcases List.mem_append.mp hy with hy | hy
    · exact ha y hy
    · rw [List.mem_singleton.mp hy]
      exact h a x b hl ha

/-- what a line keeps of a string that is listed -/
theorem Operand.takeWhile_text_string (s : String) :
    (Operand.literal (.string s)).text.toList.takeWhile isPlain
      = Ty.string.name.toList ++ '@' :: s.toList.takeWhile isPlain := by
  have htext : (Operand.literal (.string s)).text.toList
      = Ty.string.name.toList ++ '@' :: s.toList := (Value.string s).toList_written nofun
  rw [htext, List.takeWhile_append_of_pos Ty.string.isPlain_name,
    List.takeWhile_cons_of_pos (by decide)]

theorem Operand.isClean_of_denotes (s : String)
    (h : (Operand.literal (.string s)).Denotes
      (Ty.string.name.toList ++ '@' :: s.toList.takeWhile isPlain)) :
    (Operand.literal (.string s)).IsClean := by
  obtain ⟨text, hat, hd⟩ := h
  cases List.append_cancel_left hat
  intro s' hs' c hc
  cases hs'
  exact (Escape.isVerbatim_iff c).mp (Escape.forall_isVerbatim s.toList hd c hc)

theorem Operand.isWord_text (o : Operand) (hw : o.IsWritable) (h : o.IsClean) :
    IsWord o.text.toList := by
  rw [o.toList_text h]
  exact o.isWord_source hw

/-- if a line is read back, each operand is read from what the line keeps of its text, at least as
far as words have come before it -/
theorem Instr.denotes_of_listed (i : Instr) (n : Nat) (s : List Char) (is : List Instr)
    (h : instrsOfLines (numberedLines n (lines (unwords i.words ++ '\n' :: s))) = .ok (i :: is))
    (os os' : List Operand) (o : Operand) (hos : i.operands = os ++ o :: os')
    (hbefore : ∀ o ∈ os, IsWord o.text.toList)
    (ho : IsWord (o.text.toList.takeWhile isPlain)) :
    o.Denotes (o.text.toList.takeWhile isPlain) := by
  have hwords : i.words = (i.opcode.mnemonic.toList :: os.map fun o => o.text.toList)
      ++ o.text.toList :: os'.map fun o => o.text.toList := by
    rw [Instr.words, hos, List.map_append]
    rfl
  have hline : ∀ w ∈ i.opcode.mnemonic.toList :: ((os.map fun o => o.text.toList)
      ++ [o.text.toList.takeWhile isPlain]), IsWord w :=
    List.forall_mem_cons.mpr ⟨i.opcode.isWord_mnemonic, List.forall_mem_append.mpr
      ⟨List.forall_mem_map.mpr hbefore, List.forall_mem_singleton.mpr ho⟩⟩
  obtain ⟨c, s', hc, hcut⟩ := exists_unwords_cut
    (i.opcode.mnemonic.toList :: os.map fun o => o.text.toList)
    (os'.map fun o => o.text.toList) o.text.toList s
  obtain ⟨more, ls, hl⟩ := exists_numberedLines_cut n _ _ _ c s' hline hc
  rw [hwords, hcut, List.cons_append, hl] at h
  obtain ⟨j, js, hj, _, heq⟩ := instrsOfLines_cons_eq_ok _ _ _ h
  cases heq
  have hd := List.forall₂_drop os.length ((CodeLine.instr_eq_ok _ _).mp hj).2
  rw [hos, List.drop_left' (List.length_map _), List.drop_left, List.forall₂_cons] at hd
  exact hd.1

/-- **An instruction that is read back from its line is clean.** -/
theorem Instr.isClean_of_listed (i : Instr) (hw : i.IsWritable) (n : Nat) (s : List Char)
    (is : List Instr)
    (h : instrsOfLines (numberedLines n (lines (unwords i.words ++ '\n' :: s))) = .ok (i :: is)) :
    i.IsClean := by
  -- from the left, so that the operands before one are known to be words of the line
  refine forall_of_forall_before _ i.operands fun os o os' hos hclean => ?_
  have hbefore : ∀ o ∈ os, IsWord o.text.toList := fun o ho =>
    o.isWord_text (hw o (hos ▸ List.mem_append_left _ ho)) (hclean o ho)
  intro t ht
  have hkept : IsWord (o.text.toList.takeWhile isPlain) := by
    rw [ht, Operand.takeWhile_text_string]
    exact isWord_append_at _ _ Ty.string.isPlain_name (List.all_eq_true.mp List.all_takeWhile)
  have hd := i.denotes_of_listed n s is h os os' o hos hbefore hkept
  rw [ht, Operand.takeWhile_text_string] at hd
  exact Operand.isClean_of_denotes t hd t rfl

theorem forall_isClean_of_listed (is : List Instr) (hw : ∀ i ∈ is, i.IsWritable) (n : Nat)
    (h : instrsOfLines (numberedLines n (lines (body (is.map Instr.words)))) = .ok is) :
    ∀ i ∈ is, i.IsClean := by
  induction is generalizing n with
  | nil => exact List.forall_mem_nil _
  | cons i is ih =>
    obtain ⟨hi, his⟩ := List.forall_mem_cons.mp hw
    rw [List.map_cons] at h
    have hclean : i.IsClean := by
      rw [body_cons] at h
      exact i.isClean_of_listed hi n _ is h
    rw [instrsOfLines_body_cons _ _ i (i.readsAs_words hi hclean) n] at h
    obtain ⟨is', his', heq⟩ := (map_eq_ok _ _ _).mp h
    cases heq
    exact List.forall_mem_cons.mpr ⟨hclean, ih his (n + 1) his'⟩

theorem assemble_page_words_iff (is : List Instr) (hw : ∀ i ∈ is, i.IsWritable) :
    assemble (page (is.map Instr.words)) = .ok (Program.ofInstrs is) ↔ ∀ i ∈ is, i.IsClean := by
  constructor
  · intro h
    rw [assemble_page_eq] at h
    obtain ⟨is', his, heq⟩ := (map_eq_ok _ _ _).mp h
    have hsame : is' = is := by
      rw [← Program.instrs_ofInstrs is', heq, Program.instrs_ofInstrs]
    rw [hsame] at his
    exact forall_isClean_of_listed is hw 2 his
  · intro h
    exact assemble_page Instr.words is fun i hi => i.readsAs_words (hw i hi) (h i hi)

/-- **The listing of a program that was assembled stands for the program if and only if no string in
it has a backslash, a `#` or white space.** -/
theorem assemble_listing_iff (s : List Char) (p : Program) (h : assemble s = .ok p) :
    assemble p.listing = .ok p ↔ ∀ i ∈ p.instrs, ∀ t : String,
      Operand.literal (.string t) ∈ i.operands →
        ∀ c ∈ t.toList, c ≠ '\\' ∧ c ≠ '#' ∧ isBlank c = false := by
  have hlist := assemble_page_words_iff p.instrs (isWritable_of_assemble s p h)
  rw [← (assemble_eq_ok s p h).1, ← p.listing_eq_page] at hlist
  rw [hlist]
  exact forall₂_congr fun i _ =>
    ⟨fun hc t ht => hc _ ht t rfl, fun hc o ho t ht => hc t (ht ▸ ho)⟩

/-- a space in a string is lost, a letter is not -/
theorem assemble_listing_iff_space :
    ∃ p q, assemble ".IPPcode24\nWRITE string@a\n".toList = .ok p ∧ assemble p.listing = .ok p ∧
      assemble ".IPPcode24\nWRITE string@a\\032b\n".toList = .ok q ∧
      assemble q.listing ≠ .ok q := by
  have hp : assemble ".IPPcode24\nWRITE string@a\n".toList
      = .ok (Program.ofInstrs [.print .stdout (.literal (.string "a"))]) := by rfl
  have hq : assemble ".IPPcode24\nWRITE string@a\\032b\n".toList
      = .ok (Program.ofInstrs [.print .stdout (.literal (.string "a b"))]) := by rfl
  refine ⟨_, _, hp, (assemble_listing_iff _ _ hp).mpr ?_, hq, fun h => ?_⟩
  · intro i hi t ht
    cases List.mem_singleton.mp hi
    cases List.mem_singleton.mp ht
    intro c hc
    cases List.mem_singleton.mp hc
    decide
  · have hblank := (assemble_listing_iff _ _ hq).mp h _ (.head _) "a b" (.head _) ' ' (by decide)
    exact absurd hblank.2.2 (by decide)

end IPPcode24
