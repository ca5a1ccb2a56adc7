import IPPcode24.Variable
import IPPcode24.Proofs.Escapes
import IPPcode24.Proofs.Layout

/-!
# Characters of names and of literals

A string is read back from the text in which every character that a literal cannot hold, and every
backslash, is escaped, and no other one.

* `isNameChar_of_mem_decimal`   the decimal text of an integer needs no escapes
* `Escape.encode s`             a text without white space and comments that stands for `s`
* `Escape.decode?_encode`       **it does**, if the white space in `s` has codes of three digits
* `Escape.forall_isVerbatim`    a text that lost nothing and is read back needs no escapes
-/

namespace IPPcode24

/-! ## characters of names -/

theorem inSpans_disjoint (as bs : List (Nat × Nat))
    (h : ∀ s ∈ as, ∀ t ∈ bs, s.2 < t.1 ∨ t.2 < s.1) (c : Char) (hc : inSpans as c = true) :
    inSpans bs c = false := by
  refine Bool.eq_false_iff.mpr fun hc' => ?_
  obtain ⟨s, hs, hs1, hs2⟩ := (inSpans_iff as c).mp hc
  obtain ⟨t, ht, ht1, ht2⟩ := (inSpans_iff bs c).mp hc'
  rcases h s hs t ht with h | h
  · exact absurd (Nat.lt_of_le_of_lt hs2 h) (Nat.not_lt.mpr ht1)
  · exact absurd (Nat.lt_of_le_of_lt ht2 h) (Nat.not_lt.mpr hs1)

/-- no white space is a letter, a number or a mark -/
theorem isBlank_of_isNameChar (c : Char) (h : isNameChar c = true) : isBlank c = false := by
  refine Bool.eq_false_iff.mpr fun hc => ?_
  have halpha : isAlphabetic c = false := inSpans_disjoint blank alphabetic (by decide +kernel) c hc
  have hnum : isNumeric c = false := inSpans_disjoint blank numeric (by decide +kernel) c hc
  rw [isNameChar, halpha, hnum, Bool.false_or, Bool.false_or, isMark, List.contains_iff_mem] at h
  have hmarks : "_-$&%*!?".toList.all (fun m => !isBlank m) = true := by decide
  have hmark := List.all_eq_true.mp hmarks c h
  rw [hc] at hmark
  cases hmark

theorem isPlain_of_isNameChar (c : Char) (h : isNameChar c = true) : isPlain c = true := by
  refine (isPlain_iff c).mpr ⟨isBlank_of_isNameChar c h, ?_⟩
  rintro rfl
  exact absurd h (by decide +kernel)

theorem isNameChar_of_isName (s : List Char) (h : isName s = true) :
    s ≠ [] ∧ ∀ c ∈ s, isNameChar c = true := by
  cases s with
  | nil => cases h
  | cons c s =>
    obtain ⟨hc, hs⟩ := Bool.and_eq_true_iff.mp h
    refine ⟨List.cons_ne_nil c s, List.forall_mem_cons.mpr ⟨?_, List.all_eq_true.mp hs⟩⟩
    rw [isNameChar, Bool.or_right_comm, Bool.or_eq_true]
    exact .inl hc

theorem isWord_of_isName (s : List Char) (h : isName s = true) : IsWord s :=
  have ⟨hne, hs⟩ := isNameChar_of_isName s h
  ⟨hne, fun c hc => isPlain_of_isNameChar c (hs c hc)⟩

theorem isNameChar_of_isDigit (c : Char) (h : c.isDigit = true) : isNameChar c = true := by
  obtain ⟨h0, h9⟩ := Bool.and_eq_true_iff.mp h
  have hnum : isNumeric c = true :=
    (inSpans_iff numeric c).mpr ⟨(0x30, 0x39), .head _, of_decide_eq_true h0, of_decide_eq_true h9⟩
  rw [isNameChar, hnum, Bool.or_true]
  rfl

theorem isNameChar_of_mem_decimal (n : Int) : ∀ c ∈ decimal n, isNameChar c = true := by
  have hdigits : ∀ k, ∀ c ∈ Nat.toDigits 10 k, isNameChar c = true := fun k c hc =>
    isNameChar_of_isDigit c (isDigit_toDigits k c hc)
  cases n with
  | ofNat k => exact hdigits k
  | negSucc k => exact List.forall_mem_cons.mpr ⟨by decide +kernel, hdigits (k + 1)⟩

namespace Escape

/-! ## the text of a string -/

/-- the character may stand for itself in a string literal -/
def isVerbatim (c : Char) : Bool := isPlain c && c != '\\'

def encode (s : List Char) : List Char := s.flatMap fun c => if isVerbatim c then [c] else escape c

theorem isVerbatim_iff (c : Char) :
    isVerbatim c = true ↔ c ≠ '\\' ∧ c ≠ '#' ∧ isBlank c = false := by
  rw [isVerbatim, Bool.and_eq_true, isPlain_iff, bne_iff_ne]
  exact ⟨fun h => ⟨h.2, h.1.2, h.1.1⟩, fun h => ⟨⟨h.2.2, h.2.1⟩, h.1⟩⟩

theorem encode_cons (c : Char) (s : List Char) :
    encode (c :: s) = (if isVerbatim c then [c] else escape c) ++ encode s := List.flatMap_cons

theorem isDigit_digitChar_mod (n : Nat) : (Nat.digitChar (n % 10)).isDigit = true := by
  rw [Nat.isDigit_digitChar]
  exact decide_eq_true (Nat.mod_lt n (by decide))

/-- a character that does not stand for itself has a code of three digits, white space apart -/
theorem toNat_le_of_not_isVerbatim (c : Char) (h : isVerbatim c = false)
    (hblank : isBlank c = true → c.toNat ≤ 999) : c.toNat ≤ 999 := by
  by_cases hb : isBlank c = true
  · exact hblank hb
  · by_cases hc : c = '\\' ∨ c = '#'
    · rcases hc with rfl | rfl <;> decide
    · obtain ⟨hc, hc'⟩ := not_or.mp hc
      rw [(isVerbatim_iff c).mpr ⟨hc, hc', Bool.eq_false_iff.mpr hb⟩] at h
      cases h

theorem encode_eq_written (s : List Char) :
    encode s = written (s.map fun c => (c, !isVerbatim c)) := by
  rw [encode, written, List.flatMap_map]
  refine congrArg (s.flatMap ·) (funext fun c => ?_)
  cases isVerbatim c <;> rfl

/-- **An escaped text stands for the text.** -/
theorem decode?_encode (s : List Char) (h : ∀ c ∈ s, isBlank c = true → c.toNat ≤ 999) :
    decode? (encode s) = some s := by
  have hmarked : ∀ p ∈ s.map fun c => (c, !isVerbatim c),
      (p.2 = true → p.1.toNat ≤ 999) ∧ (p.1 = '\\' → p.2 = true) := by
    intro p hp
    obtain ⟨c, hc, rfl⟩ := List.mem_map.mp hp
    refine ⟨fun hv => toNat_le_of_not_isVerbatim c ((Bool.not_eq_true' _).mp hv) (h c hc), ?_⟩
    rintro rfl
    decide
  rw [encode_eq_written, decode?_written _ hmarked, List.map_map]
  exact congrArg some (List.map_id s)

theorem isPlain_of_mem_encode (s : List Char) : ∀ c ∈ encode s, isPlain c = true := by
  intro c hc
  obtain ⟨d, _, hd⟩ := List.mem_flatMap.mp hc
  split at hd
  · next hv =>
    cases List.mem_singleton.mp hd
    exact (Bool.and_eq_true_iff.mp hv).1
  · have hdigit : ∀ n, isPlain (Nat.digitChar (n % 10)) = true := fun n =>
      isPlain_of_isNameChar _ (isNameChar_of_isDigit _ (isDigit_digitChar_mod n))
    rw [escape] at hd
    simp only [List.mem_cons, List.not_mem_nil, or_false] at hd
    rcases hd with rfl | rfl | rfl | rfl
    · decide
    · exact hdigit _
    · exact hdigit _
    · exact hdigit _

theorem encode_of_isVerbatim (s : List Char) (h : ∀ c ∈ s, isVerbatim c = true) : encode s = s := by
  induction s with
  | nil => rfl
  | cons c s ih =>
    obtain ⟨hc, hs⟩ := List.forall_mem_cons.mp h
    rw [encode_cons, if_pos hc, ih hs]
    rfl

/-! ## what a text stands for -/

/-- **If what a line keeps of a text stands for the text, all of it stands for itself.** -/
theorem forall_isVerbatim (s : List Char) (h : decode? (s.takeWhile isPlain) = some s) :
    ∀ c ∈ s, isVerbatim c = true := by
  obtain ⟨hle, hlt⟩ := length_le_of_decode? _ _ h
  have hs : s.takeWhile isPlain = s := (List.takeWhile_prefix isPlain).eq_of_length_le hle
  have hall : (s.takeWhile isPlain).all isPlain = true := List.all_takeWhile
  rw [hs] at hlt hall
  intro c hc
  rw [isVerbatim, List.all_eq_true.mp hall c hc, Bool.true_and, bne_iff_ne]
  rintro rfl
  exact Nat.lt_irrefl _ (hlt hc)

end Escape
end IPPcode24
