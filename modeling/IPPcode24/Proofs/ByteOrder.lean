import IPPcode24.Proofs.Equality
import IPPcode24.Proofs.Reports

/-!
# Strings in the order of their bytes

Strings are compared by code point.  To compare their bytes in UTF-8 comes to the same: the
encodings of two characters differ at a place that both have, and there the smaller character has
the smaller byte.  So neither of them is the beginning of the other one, and the order of two texts
is that of the first characters in which they differ, wherever in these the bytes first differ.

* `FirstLess s t`            `s` is below `t` at the first place where they differ
* `Utf8.tails`, `lead`, `rest`   an encoding as a lead byte, which tells its length, and six bits
                             for each byte behind it
* `Utf8.encodeChar_eq`       the encoding of a character has this form
* `Utf8.firstLess_encodeChar`   **the smaller character has the encoding that is first less**
* `compare_utf8`             **the order of the bytes is the order of the code points**
* `byteOrder`, `codeOrder`   the two orders of strings
* `byBytes es`               entries sorted by the bytes of their names

Main statement, `Machine.byte_order`.
-/

namespace IPPcode24

/-! ## the first difference -/

/-- the lists differ at a place that both have, and at the first such place `s` has the smaller
element -/
inductive FirstLess {α : Type} [LT α] : List α → List α → Prop where
  | head {a b : α} {s t : List α} (h : a < b) : FirstLess (a :: s) (b :: t)
  | tail {a : α} {s t : List α} (h : FirstLess s t) : FirstLess (a :: s) (a :: t)

namespace FirstLess

/-- whatever comes behind does not count -/
theorem append {α : Type} [LT α] {s t : List α} (h : FirstLess s t) (u v : List α) :
    FirstLess (s ++ u) (t ++ v) := by
  induction h with
  | head h => exact .head h
  | tail _ ih => exact .tail ih

theorem compare_eq_lt {s t : Bytes} (h : FirstLess s t) : compare s t = .lt := by
  induction h with
  | head h =>
    rw [List.compare_cons_cons, Std.compare_eq_lt.mpr h]
    rfl
  | tail _ ih =>
    rw [List.compare_cons_cons, Std.compare_self, ih]
    rfl

end FirstLess

/-! ## the bytes of a character -/

namespace Utf8

/-- how many bytes come behind the first one in the encoding of a code point -/
def tails (n : Nat) : Nat :=
  if n ≤ 0x7F then 0 else if n ≤ 0x7FF then 1 else if n ≤ 0xFFFF then 2 else 3

/-- the bits of a first byte that tell how many come behind it -/
def mark : Nat → Nat
  | 0 => 0
  | 1 => 0xC0
  | 2 => 0xE0
  | _ => 0xF0

/-- the first byte -/
def lead (n : Nat) : Nat := mark (tails n) + n / 64 ^ tails n

/-- the last `k` bytes, with six bits each, the highest ones first -/
def rest : Nat → Nat → Bytes
  | 0, _ => []
  | k + 1, n => UInt8.ofNat (n / 64 ^ k % 64 + 0x80) :: rest k n

/-- the four lengths, with the code points that have them -/
theorem lengths (n : Nat) :
    (n ≤ 0x7F ∧ tails n = 0 ∧ lead n = n) ∨
    (0x7F < n ∧ n ≤ 0x7FF ∧ tails n = 1 ∧ lead n = 0xC0 + n / 64) ∨
    (0x7FF < n ∧ n ≤ 0xFFFF ∧ tails n = 2 ∧ lead n = 0xE0 + n / 4096) ∨
    (0xFFFF < n ∧ tails n = 3 ∧ lead n = 0xF0 + n / 262144) := by
  unfold lead tails
  by_cases h1 : n ≤ 0x7F
  · simp [h1, mark]
  · by_cases h2 : n ≤ 0x7FF
    · simp [h1, h2, mark, Nat.lt_of_not_le]
    · by_cases h3 : n ≤ 0xFFFF
      · simp [h1, h2, h3, mark, Nat.lt_of_not_le]
      · simp [h1, h2, h3, mark, Nat.lt_of_not_le]

theorem toNat_le (c : Char) : c.toNat ≤ 0x10FFFF := by
  have h : c.val.toNat < 0xD800 ∨ 0xDFFF < c.val.toNat ∧ c.val.toNat < 0x110000 := c.valid
  show c.val.toNat ≤ 0x10FFFF
  omega

theorem encodeChar_eq (c : Char) :
    String.utf8EncodeChar c = UInt8.ofNat (lead c.toNat) :: rest (tails c.toNat) c.toNat := by
  have hle : c.val.toNat ≤ 0x10FFFF := toNat_le c
  show _ = UInt8.ofNat (lead c.val.toNat) :: rest (tails c.val.toNat) c.val.toNat
  unfold String.utf8EncodeChar
  generalize c.val.toNat = n at hle
  dsimp only
  -- in its range the quotient does not reach the bits of the mark, so no remainder is lost
  obtain ⟨h, ht, hl⟩ | ⟨_, h, ht, hl⟩ | ⟨_, h, ht, hl⟩ | ⟨_, ht, hl⟩ := lengths n
  · rw [if_pos h, ht, hl]
    rfl
  · have hlead : n / 64 % 32 + 192 = 192 + n / 64 := by omega
    rw [if_neg (by omega), if_pos h, ht, hl, hlead]
    simp [rest]
  · have hlead : n / 4096 % 16 + 224 = 224 + n / 4096 := by omega
    rw [if_neg (by omega), if_neg (by omega), if_pos h, ht, hl, hlead]
    simp [rest]
  · have hlead : n / 262144 % 8 + 240 = 240 + n / 262144 := by omega
    rw [if_neg (by omega), if_neg (by omega), if_neg (by omega), ht, hl, hlead]
    simp [rest]

theorem lead_lt (n : Nat) (h : n ≤ 0x10FFFF) : lead n < 256 := by
  have hn := lengths n
  omega

/-- a longer encoding has a greater first byte -/
theorem lead_lt_or_eq (n m : Nat) (h : n < m) (hm : m ≤ 0x10FFFF) :
    lead n < lead m ∨ lead n = lead m ∧ tails n = tails m := by
  have hlen := lengths n
  have hlen' := lengths m
  omega

theorem ofNat_lt_ofNat (a b : Nat) (h : a < b) (hb : b < 256) : UInt8.ofNat a < UInt8.ofNat b := by
  rw [UInt8.lt_iff_toNat_lt, UInt8.toNat_ofNat', UInt8.toNat_ofNat']
  omega

/-- numbers that differ in their last `k` digits to the base 64 only are told apart by these -/
theorem firstLess_rest (k n m : Nat) (h : n < m) (hk : n / 64 ^ k = m / 64 ^ k) :
    FirstLess (rest k n) (rest k m) := by
  induction k with
  | zero =>
    rw [Nat.pow_zero, Nat.div_one, Nat.div_one] at hk
    omega
  | succ k ih =>
    have hle : n / 64 ^ k ≤ m / 64 ^ k := Nat.div_le_div_right (Nat.le_of_lt h)
    rw [Nat.pow_succ, ← Nat.div_div_eq_div_mul, ← Nat.div_div_eq_div_mul] at hk
    unfold rest
    by_cases hq : n / 64 ^ k = m / 64 ^ k
    · rw [hq]
      exact .tail (ih hq)
    · exact .head (ofNat_lt_ofNat _ _ (by omega) (by omega))

/-- **The smaller character has the encoding that is first less.** -/
theorem firstLess_encodeChar (c d : Char) (h : c.toNat < d.toNat) :
    FirstLess (String.utf8EncodeChar c) (String.utf8EncodeChar d) := by
  have hd := toNat_le d
  rw [encodeChar_eq, encodeChar_eq]
  obtain hlt | ⟨hlead, htails⟩ := lead_lt_or_eq _ _ h hd
  · exact .head (ofNat_lt_ofNat _ _ hlt (lead_lt _ hd))
  · have hq : c.toNat / 64 ^ tails d.toNat = d.toNat / 64 ^ tails d.toNat := by
      unfold lead at hlead
      rw [htails] at hlead
      exact Nat.add_left_cancel hlead
    rw [hlead, htails]
    exact .tail (firstLess_rest _ _ _ h hq)

end Utf8

/-! ## the bytes of a text -/

theorem compare_append_left (p s t : Bytes) : compare (p ++ s) (p ++ t) = compare s t := by
  induction p with
  | nil => rfl
  | cons a p ih =>
    rw [List.cons_append, List.cons_append, List.compare_cons_cons, Std.compare_self, ih]
    rfl

/-- the first characters count first, and all of their bytes -/
theorem compare_utf8_cons (c d : Char) (s t : List Char) :
    compare (utf8 (c :: s)) (utf8 (d :: t))
      = (compare c.toNat d.toNat).then (compare (utf8 s) (utf8 t)) := by
  have hless : ∀ (c d : Char) (s t : List Char), c.toNat < d.toNat →
      compare (utf8 (c :: s)) (utf8 (d :: t)) = .lt := fun c d s t h =>
    ((Utf8.firstLess_encodeChar c d h).append (utf8 s) (utf8 t)).compare_eq_lt
  rcases Nat.lt_trichotomy c.toNat d.toNat with h | h | h
  · rw [hless c d s t h, Nat.compare_eq_lt.mpr h]
    rfl
  · rw [Char.toNat_inj.mp h, utf8_cons, utf8_cons, compare_append_left, Std.compare_self]
    rfl
  · -- the first case with the two texts exchanged
    rw [Std.OrientedOrd.eq_swap, hless d c t s h, Nat.compare_eq_gt.mpr h]
    rfl

/-- no character has an empty encoding -/
theorem exists_utf8_cons (c : Char) (s : List Char) : ∃ b bs, utf8 (c :: s) = b :: bs := by
  rw [utf8_cons, Utf8.encodeChar_eq]
  exact ⟨_, _, rfl⟩

/-- **The order of the bytes is the order of the code points.** -/
theorem compare_utf8 (s t : List Char) :
    compare (utf8 s) (utf8 t) = compare (s.map Char.toNat) (t.map Char.toNat) := by
  induction s generalizing t with
  | nil =>
    cases t with
    | nil => rfl
    | cons d t =>
      obtain ⟨b, bs, h⟩ := exists_utf8_cons d t
      rw [h]
      rfl
  | cons c s ih =>
    cases t with
    | nil =>
      obtain ⟨b, bs, h⟩ := exists_utf8_cons c s
      rw [h]
      rfl
    | cons d t =>
      rw [compare_utf8_cons, ih t, List.map_cons, List.map_cons, List.compare_cons_cons]

/-! ## strings -/

/-- the order of the bytes in UTF-8, a string before those that it is the beginning of -/
def byteOrder (x y : String) : Ordering := compare (utf8 x.toList) (utf8 y.toList)

/-- the order of the code points, a string before those that it is the beginning of -/
def codeOrder (x y : String) : Ordering :=
  compare (x.toList.map Char.toNat) (y.toList.map Char.toNat)

theorem byteOrder_eq (x y : String) : byteOrder x y = codeOrder x y := compare_utf8 _ _

theorem lt_iff_compare_codes (s t : List Char) :
    s < t ↔ compare (s.map Char.toNat) (t.map Char.toNat) = .lt := by
  induction s generalizing t with
  | nil => cases t <;> simp
  | cons c s ih =>
    cases t with
    | nil => simp
    | cons d t =>
      rw [List.cons_lt_cons_iff, ih t, List.map_cons, List.map_cons, List.compare_cons_cons,
        Ordering.then_eq_lt, Nat.compare_eq_lt, Nat.compare_eq_eq, Char.toNat_inj]
      exact Iff.rfl

theorem codeOrder_eq_lt (x y : String) : codeOrder x y = .lt ↔ x < y := by
  show _ ↔ x.toList < y.toList
  exact (lt_iff_compare_codes _ _).symm

theorem codeOrder_eq_eq (x y : String) : codeOrder x y = .eq ↔ x = y := by
  have hinj : Function.Injective (List.map Char.toNat) :=
    List.map_injective_iff.mpr fun _ _ => Char.toNat_inj.mp
  unfold codeOrder
  rw [Std.compare_eq_iff_eq, hinj.eq_iff, String.toList_inj]

/-- the comparison of values sees the order of the bytes -/
theorem compareOfLessAndEq_eq (x y : String) : compareOfLessAndEq x y = byteOrder x y := by
  rw [byteOrder_eq]
  unfold compareOfLessAndEq
  split
  · next h => exact ((codeOrder_eq_lt x y).mpr h).symm
  · next hlt =>
    split
    · next h => exact ((codeOrder_eq_eq x y).mpr h).symm
    · next hne =>
      cases h : codeOrder x y with
      | lt => exact absurd ((codeOrder_eq_lt x y).mp h) hlt
      | eq => exact absurd ((codeOrder_eq_eq x y).mp h) hne
      | gt => rfl

theorem isLE_byteOrder (x y : String) : (byteOrder x y).isLE = decide (x ≤ y) := by
  rw [← compareOfLessAndEq_eq, Bool.eq_iff_iff, decide_eq_true_iff]
  exact isLE_compareOfLessAndEq String.le_antisymm String.not_le String.le_total

/-- entries sorted by the bytes of their names, those of one name in the order they came -/
def byBytes (es : List (String × Slot)) : List (String × Slot) :=
  es.mergeSort fun a b => (byteOrder a.1 b.1).isLE

theorem byBytes_eq (es : List (String × Slot)) : byBytes es = byName es := by
  unfold byBytes byName
  simp only [isLE_byteOrder]

namespace Machine

/-- an opcode that looks at the order of two strings only sees the order of their bytes -/
theorem stores_of_strings (m : Machine) (s : State) (order : Nat) (f : Binary) (dst : Var)
    (a b : Symbol) (x y : String) (accept : Ordering → Bool)
    (hf : f.apply (.string x) (.string y) = .ok (.bool (accept (compareOfLessAndEq x y))))
    (hd : s.memory.frames.Declared dst.frame.place dst.name)
    (hx : s.memory.value a = .ok (.string x)) (hy : s.memory.value b = .ok (.string y)) (v : Bool) :
    m.Stores s order f dst a b (.bool v) ↔ v = accept (byteOrder x y) := by
  rw [stores_iff m s order dst a b f hd, s.memory.combine_of_values a b f _ _ hx hy, hf,
    compareOfLessAndEq_eq, Except.ok.injEq, Value.bool.injEq]
  exact eq_comm

/-- **To compare strings by their bytes is to compare them by code point.**  The two orders agree on
all strings.  So it is also the order of the bytes that LT and GT store, for all symbols with
strings as their values, and by which the report lists a frame: whatever the order in which the
entries of a frame are kept, they are sorted by the bytes of their names to its listing, and in this
the bytes increase strictly. -/
theorem byte_order :
    (∀ x y : String, byteOrder x y = codeOrder x y) ∧
    (∀ (m : Machine) (s : State) (order : Nat) (dst : Var) (a b : Symbol) (x y : String),
      s.memory.frames.Declared dst.frame.place dst.name →
      s.memory.value a = .ok (.string x) → s.memory.value b = .ok (.string y) →
      ∀ v, (m.Stores s order .lt dst a b (.bool v) ↔ v = (byteOrder x y).isLT) ∧
        (m.Stores s order .gt dst a b (.bool v) ↔ v = (byteOrder x y).isGT)) ∧
    (∀ (f : Frame) es, f.Lists es → f.text = entriesText (byBytes es) ∧
      (byBytes es).Pairwise fun a b => byteOrder a.1 b.1 = .lt) := by
  refine ⟨byteOrder_eq, fun m s order dst a b x y hd hx hy v => ⟨?_, ?_⟩, fun f es h => ?_⟩
  · exact m.stores_of_strings s order .lt dst a b x y Ordering.isLT rfl hd hx hy v
  · exact m.stores_of_strings s order .gt dst a b x y Ordering.isGT rfl hd hx hy v
  · rw [byBytes_eq, h.byName_eq]
    refine ⟨f.text_eq, f.increasing.imp fun hab => ?_⟩
    rw [byteOrder_eq]
    exact (codeOrder_eq_lt _ _).mpr hab

/-- strings that differ in their last character, with three bytes and with four -/
def textMachine : Machine :=
  ⟨Program.ofInstrs [.defVar ⟨.gf, "x"⟩, .binary .lt ⟨.gf, "x"⟩ (.literal (.string "z\uffff"))
    (.literal (.string "z😀"))], ⟨[]⟩, rfl⟩

/-- a comparison of these, and a frame with names of one, two, three and four bytes -/
theorem byte_order_lengths :
    let m := textMachine
    let s := m.after 1 (State.start [] (Sink.new none) (Sink.new none))
    let x : Var := ⟨.gf, "x"⟩
    let history := [("𝐚", Slot.uninitialized), ("z", .uninitialized), ("Ａ", .uninitialized),
      ("é", .holds .nil)]
    (m.step s).fault = none ∧ (m.step s).state.memory.frames.read x = .ok (.bool true) ∧
    ¬m.Stores s 2 .gt x (.literal (.string "z\uffff")) (.literal (.string "z😀")) (.bool true) ∧
    entriesText (byBytes (entriesAfter history))
      = "z=<uninitialized>, é=nil@nil, Ａ=<uninitialized>, 𝐚=<uninitialized>" := by
  intro m s x history
  obtain ⟨_, hstores, hlisting⟩ := byte_order
  have hd : s.memory.frames.Declared .gf "x" := ⟨.uninitialized, by decide⟩
  obtain ⟨hlt, _⟩ := hstores m s 2 x (.literal (.string "z\uffff")) (.literal (.string "z😀"))
    _ _ hd rfl rfl true
  obtain ⟨_, hgt⟩ := hstores m s 2 x (.literal (.string "z\uffff")) (.literal (.string "z😀"))
    _ _ hd rfl rfl true
  obtain ⟨htext, _⟩ := hlisting _ _ (Frame.lists_after history)
  obtain ⟨s', hs', hread⟩ := hlt.mpr (by decide +kernel)
  have hstep : m.step s = .ofResult (m.outcome s 2 (.binary .lt x (.literal (.string "z\uffff"))
      (.literal (.string "z😀")))) := m.step_eq_outcome s ⟨2, _⟩ (by decide) rfl
  rw [hstep, hs']
  refine ⟨rfl, hread, fun h => ?_, htext.symm.trans (by decide +kernel)⟩
  exact absurd (hgt.mp h) (by decide +kernel)

end Machine
end IPPcode24
