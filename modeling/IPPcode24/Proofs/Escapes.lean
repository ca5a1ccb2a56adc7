import IPPcode24.Proofs.Integers

/-!
# What escapes stand for

The text of a string literal is read as a list of items, each of which stands for one character.

* `Item.plain c`       a character other than the backslash, which stands for itself
* `Item.code a b c`    a backslash and three digits, for the character with that code
* `decode?_eq_some`    **a text is decoded if it is made of items, to their characters**
* `decode?_append`     decoding goes on behind a text that is decoded
* `of_mem_decode?`     a character comes from the text or has a code of three digits
* `escape c`           the item that stands for a character with such a code
* `written cs`         a string with some of its characters escaped; `decode?_written` reads it back

Main statement, `Value.ofLiteral_string`.
-/

namespace IPPcode24

namespace Escape

/-! ## items -/

inductive Item where
  | plain (c : Char) (h : c ≠ '\\')
  | code (a b c : Fin 10)

def Item.text : Item → List Char
  | .plain c _ => [c]
  | .code a b c => ['\\', a.val.digitChar, b.val.digitChar, c.val.digitChar]

def Item.char : Item → Char
  | .plain c _ => c
  | .code a b c => Char.ofNat (100 * a + 10 * b + c)

def itemsText (is : List Item) : List Char := is.flatMap Item.text
def itemsChars (is : List Item) : List Char := is.map Item.char

theorem itemsText_cons (i : Item) (is : List Item) :
    itemsText (i :: is) = i.text ++ itemsText is := rfl
theorem itemsChars_cons (i : Item) (is : List Item) :
    itemsChars (i :: is) = i.char :: itemsChars is := rfl

/-- no code of three digits is that of a surrogate -/
theorem Item.toNat_char_code (a b c : Fin 10) :
    (Item.code a b c).char.toNat = 100 * a + 10 * b + c := by
  have hlt : 100 * a.val + 10 * b.val + c.val < 0xd800 := by omega
  show (Char.ofNat (100 * a + 10 * b + c)).toNat = _
  rw [Char.ofNat, dif_pos (.inl hlt)]
  rfl

theorem exists_digit (c : Char) (h : c.isDigit = true) :
    ∃ d : Fin 10, c = d.val.digitChar ∧ c.toNat - 48 = d :=
  ⟨⟨c.toNat - 48, toNat_sub_lt_of_isDigit c h⟩, eq_digitChar_of_isDigit c h, rfl⟩

/-! ## decoding -/

/-- one item is decoded, whatever follows it -/
theorem decode?_item_append (i : Item) (u : List Char) :
    decode? (i.text ++ u) = (decode? u).map (i.char :: ·) := by
  cases i with
  | plain c h => exact decode?_cons c u h
  | code a b c =>
    have hdigit : ∀ d : Fin 10,
        d.val.digitChar.isDigit = true ∧ d.val.digitChar.toNat - 48 = d := by decide
    have hall : (a.val.digitChar.isDigit && b.val.digitChar.isDigit &&
        c.val.digitChar.isDigit) = true := by
      rw [(hdigit a).1, (hdigit b).1, (hdigit c).1]
      rfl
    have hchar : char a.val.digitChar b.val.digitChar c.val.digitChar = (Item.code a b c).char := by
      rw [char, (hdigit a).2, (hdigit b).2, (hdigit c).2]
      rfl
    rw [← hchar]
    exact decode?_escape _ _ _ u hall

theorem decode?_items_append (is : List Item) (u : List Char) :
    decode? (itemsText is ++ u) = (decode? u).map (itemsChars is ++ ·) := by
  induction is with
  | nil =>
    show decode? u = (decode? u).map id
    rw [Option.map_id]
    rfl
  | cons i is ih =>
    rw [itemsText_cons, List.append_assoc, decode?_item_append, ih, Option.map_map]
    rfl

theorem exists_items (t s : List Char) (h : decode? t = some s) :
    ∃ is, t = itemsText is ∧ s = itemsChars is := by
  fun_induction decode? t generalizing s with
  | case1 =>
    cases h
    exact ⟨[], rfl, rfl⟩
  | case2 a b c t hd ih =>
    obtain ⟨s, hs, rfl⟩ := Option.map_eq_some_iff.mp h
    obtain ⟨is, rfl, rfl⟩ := ih s hs
    obtain ⟨hab, hc⟩ := Bool.and_eq_true_iff.mp hd
    obtain ⟨ha, hb⟩ := Bool.and_eq_true_iff.mp hab
    obtain ⟨x, hx, hxval⟩ := exists_digit a ha
    obtain ⟨y, hy, hyval⟩ := exists_digit b hb
    obtain ⟨z, hz, hzval⟩ := exists_digit c hc
    refine ⟨.code x y z :: is, ?_, ?_⟩
    · rw [itemsText_cons, hx, hy, hz]
      rfl
    · rw [itemsChars_cons, char, hxval, hyval, hzval]
      rfl
  | case3 => cases h
  | case4 => cases h
  | case5 c t _ hc ih =>
    obtain ⟨s, hs, rfl⟩ := Option.map_eq_some_iff.mp h
    obtain ⟨is, rfl, rfl⟩ := ih s hs
    exact ⟨.plain c hc :: is, rfl, rfl⟩

/-- **A text is decoded if it is made of items, to their characters.** -/
theorem decode?_eq_some (t s : List Char) :
    decode? t = some s ↔ ∃ is, t = itemsText is ∧ s = itemsChars is := by
  refine ⟨exists_items t s, ?_⟩
  intro h
  obtain ⟨is, rfl, rfl⟩ := h
  have his := decode?_items_append is []
  rwa [List.append_nil, decode?_nil, Option.map_some, List.append_nil] at his

theorem decode?_append (t s u : List Char) (h : decode? t = some s) :
    decode? (t ++ u) = (decode? u).map (s ++ ·) := by
  obtain ⟨is, rfl, rfl⟩ := exists_items t s h
  exact decode?_items_append is u

/-- a character comes from the text itself or from three digits -/
theorem of_mem_decode? (t s : List Char) (h : decode? t = some s) :
    ∀ c ∈ s, c ∈ t ∨ c.toNat ≤ 999 := by
  obtain ⟨is, rfl, rfl⟩ := exists_items t s h
  intro c hc
  obtain ⟨i, hi, rfl⟩ := List.mem_map.mp hc
  cases i with
  | plain c _ => exact .inl (List.mem_flatMap.mpr ⟨_, hi, List.mem_singleton_self c⟩)
  | code a b d =>
    rw [Item.toNat_char_code]
    omega

/-- an escape makes a text shorter -/
theorem length_le_of_decode? (t s : List Char) (h : decode? t = some s) :
    s.length ≤ t.length ∧ ('\\' ∈ t → s.length < t.length) := by
  fun_induction decode? t generalizing s with
  | case1 =>
    cases h
    exact ⟨Nat.le_refl 0, fun h => (nomatch h)⟩
  | case2 a b d t hd ih =>
    obtain ⟨s, hs, rfl⟩ := Option.map_eq_some_iff.mp h
    have := (ih s hs).1
    simp only [List.length_cons]
    omega
  | case3 => cases h
  | case4 => cases h
  | case5 d t _ hd ih =>
    obtain ⟨s, hs, rfl⟩ := Option.map_eq_some_iff.mp h
    obtain ⟨hle, hlt⟩ := ih s hs
    refine ⟨Nat.succ_le_succ hle, fun hmem => Nat.succ_lt_succ (hlt ?_)⟩
    exact (List.mem_cons.mp hmem).resolve_left (Ne.symm hd)

/-- what stands for itself is decoded to itself, and an escape never is -/
theorem decode?_eq_self (t : List Char) : decode? t = some t ↔ '\\' ∉ t := by
  constructor
  · intro h hmem
    exact Nat.lt_irrefl _ ((length_le_of_decode? t t h).2 hmem)
  · intro h
    induction t with
    | nil => exact decode?_nil
    | cons c t ih =>
      obtain ⟨hc, ht⟩ := not_or.mp (fun hm => h (List.mem_cons.mpr hm))
      rw [decode?_cons c t (Ne.symm hc), ih ht]
      rfl

/-! ## escaping -/

/-- a backslash and the last three digits of the code -/
def escape (c : Char) : List Char :=
  ['\\', Nat.digitChar (c.toNat / 100 % 10), Nat.digitChar (c.toNat / 10 % 10),
    Nat.digitChar (c.toNat % 10)]

theorem exists_escape (c : Char) (h : c.toNat ≤ 999) :
    ∃ i : Item, i.text = escape c ∧ i.char = c := by
  refine ⟨.code (.ofNat 10 (c.toNat / 100)) (.ofNat 10 (c.toNat / 10)) (.ofNat 10 c.toNat), rfl, ?_⟩
  apply Char.toNat_inj.mp
  rw [Item.toNat_char_code]
  show 100 * (c.toNat / 100 % 10) + 10 * (c.toNat / 10 % 10) + c.toNat % 10 = c.toNat
  omega

theorem decode?_escape_append (c : Char) (s : List Char) (h : c.toNat ≤ 999) :
    decode? (escape c ++ s) = (decode? s).map (c :: ·) := by
  obtain ⟨i, htext, hchar⟩ := exists_escape c h
  rw [← htext, decode?_item_append, hchar]

/-- the marked characters are escaped -/
def written (cs : List (Char × Bool)) : List Char :=
  cs.flatMap fun p => if p.2 then escape p.1 else [p.1]

theorem written_cons (c : Char) (e : Bool) (cs : List (Char × Bool)) :
    written ((c, e) :: cs) = (if e then escape c else [c]) ++ written cs := rfl

/-- **A string is read back, whatever else than its backslashes is escaped.** -/
theorem decode?_written (cs : List (Char × Bool))
    (h : ∀ p ∈ cs, (p.2 = true → p.1.toNat ≤ 999) ∧ (p.1 = '\\' → p.2 = true)) :
    decode? (written cs) = some (cs.map Prod.fst) := by
  induction cs with
  | nil => exact decode?_nil
  | cons p cs ih =>
    obtain ⟨c, e⟩ := p
    obtain ⟨⟨hcode, hback⟩, hcs⟩ := List.forall_mem_cons.mp h
    rw [written_cons]
    cases e with
    | true =>
      rw [if_pos rfl, decode?_escape_append c _ (hcode rfl), ih hcs]
      rfl
    | false =>
      have hc : c ≠ '\\' := fun hc => Bool.false_ne_true (hback hc)
      rw [if_neg Bool.false_ne_true, List.singleton_append, decode?_cons c _ hc, ih hcs]
      rfl

end Escape

/-! ## literals -/

namespace Value

/-- **String literals are accepted by their escapes.**  A text denotes a string if it is made of
items, and then the string of their characters, where a code is that of its character; every other
text is refused, and reported as a whole.  Decoding goes on behind a text that is decoded, changes
every text with a backslash and no other, and undoes any escaping that escapes the backslashes. -/
theorem ofLiteral_string (t : List Char) :
    (∀ s, Escape.decode? t = some s ↔ ∃ is, t = Escape.itemsText is ∧ s = Escape.itemsChars is) ∧
    (∀ x, ofLiteral "string".toList t = .ok x ↔
      ∃ is, t = Escape.itemsText is ∧ x = .string (String.ofList (Escape.itemsChars is))) ∧
    (∀ a b c, (Escape.Item.code a b c).char.toNat = 100 * a + 10 * b + c) ∧
    ((∀ is, t ≠ Escape.itemsText is) →
      ofLiteral "string".toList t = .error (.invalidEscape (String.ofList t))) ∧
    (∀ s u, Escape.decode? t = some s →
      Escape.decode? (t ++ u) = (Escape.decode? u).map (s ++ ·)) ∧
    (Escape.decode? t = some t ↔ '\\' ∉ t) ∧
    (∀ cs : List (Char × Bool),
      (∀ p ∈ cs, (p.2 = true → p.1.toNat ≤ 999) ∧ (p.1 = '\\' → p.2 = true)) →
      Escape.decode? (Escape.written cs) = some (cs.map Prod.fst)) := by
  refine ⟨Escape.decode?_eq_some t, fun x => ?_, Escape.Item.toNat_char_code, fun hno => ?_,
    Escape.decode?_append t, Escape.decode?_eq_self t, Escape.decode?_written⟩
  · refine (ofLiteral_name_eq_ok .string t x).trans (Option.map_eq_some_iff.trans ?_)
    constructor
    · intro h
      obtain ⟨s, hs, rfl⟩ := h
      obtain ⟨is, ht, rfl⟩ := Escape.exists_items t s hs
      exact ⟨is, ht, rfl⟩
    · intro h
      obtain ⟨is, ht, rfl⟩ := h
      exact ⟨_, (Escape.decode?_eq_some t _).mpr ⟨is, ht, rfl⟩, rfl⟩
  · refine ofLiteral_name_of_none .string t ?_
    cases hs : Escape.decode? t with
    | none => exact Option.map_eq_none_iff.mpr hs
    | some s =>
      obtain ⟨is, ht, _⟩ := Escape.exists_items t s hs
      exact absurd ht (hno is)

/-- an escape with a digit right behind it, an escape that is too short, and a string that is
written with an escape that it does not need -/
theorem ofLiteral_string_digit :
    ofLiteral "string".toList "a\\0329".toList = .ok (.string "a 9") ∧
    ofLiteral "string".toList "a\\06".toList = .error (.invalidEscape "a\\06") ∧
    Escape.decode? "\\092\\065b".toList = some "\\Ab".toList := by
  refine ⟨?_, ?_, ?_⟩
  · refine ((ofLiteral_string _).2.1 _).mpr ?_
    exact ⟨[.plain 'a' (by decide), .code 0 3 2, .plain '9' (by decide)], by decide, by decide⟩
  · refine (ofLiteral_string _).2.2.2.1 fun is his => ?_
    have hsome := ((ofLiteral_string _).1 _).mpr ⟨is, his, rfl⟩
    cases hsome
  · exact (ofLiteral_string []).2.2.2.2.2.2 [('\\', true), ('A', true), ('b', false)] (by decide)

end Value
end IPPcode24
