import Mathlib.Algebra.Group.Nat.Defs
import IPPcode24.Proofs.Evaluation
import IPPcode24.Proofs.Records

/-!
# Strings as sequences of characters

The opcodes on strings agree about one sequence: they count characters, whatever the bytes of the
encoding are, and they find them at the same positions.

* `Strlen x n`, `Concat x y z`, `GetChar x i r`, `Stri2int x i r`, `SetChar x i y r`, `Int2char n r`
                                 what the opcodes do with these values, wherever they stand
* `InRange x i`                  the index is not negative, and is below the length of STRLEN
* `charAt_eq_ok`, `charAt_congr`   the character at an index
* `charAt_append_left`, `charAt_append_right`   the characters of two strings in a row
* `charAt_replace_self`, `charAt_replace_of_ne`   the characters where one is replaced
* `charOfCode?_code`, `code_of_charOfCode?`   the codes of characters

Main statement, `strings_are_sequences`.
-/

namespace IPPcode24.Characters

/-! ## the opcodes -/

/-- STRLEN of `x` stores `n` -/
def Strlen (x : String) (n : Int64) : Prop := Unary.Yields .strlen (.string x) (.ok (.int n))

/-- CONCAT of `x` and `y` stores `z` -/
def Concat (x y z : String) : Prop :=
  Binary.Yields .concat (.string x) (.string y) (.ok (.string z))

def GetChar (x : String) (i : Int64) (r : Except Cause Value) : Prop :=
  Binary.Yields .getChar (.string x) (.int i) r

def Stri2int (x : String) (i : Int64) (r : Except Cause Value) : Prop :=
  Binary.Yields .stri2int (.string x) (.int i) r

/-- SETCHAR with the target at `x`, the index `i` and the replacement `y`; the target may be a source
too, and have the value of `y` that way -/
def SetChar (x : String) (i : Int64) (y : String) (r : Except Cause Value) : Prop :=
  SetCharYields (.string x) (.int i) (.string y) r

def Int2char (n : Int64) (r : Except Cause Value) : Prop := Unary.Yields .int2char (.int n) r

/-- the indices from zero up to what STRLEN stores -/
def InRange (x : String) (i : Int64) : Prop := ∃ n, Strlen x n ∧ 0 ≤ i.toInt ∧ i.toInt < n.toInt

/-! ### what they compute -/

theorem strlen_iff (x : String) (n : Int64) : Strlen x n ↔ Int64.ofNat x.length = n := by
  rw [Strlen, Unary.yields_iff, Unary.apply, Except.ok.injEq, Value.int.injEq]

theorem concat_iff (x y z : String) : Concat x y z ↔ x ++ y = z := by
  rw [Concat, Binary.yields_iff, Binary.apply, Except.ok.injEq, Value.string.injEq]

theorem getChar_iff (x : String) (i : Int64) (r : Except Cause Value) :
    GetChar x i r ↔ (charAt x i).map charString = r := by
  rw [GetChar, Binary.yields_iff, Binary.apply]

theorem stri2int_iff (x : String) (i : Int64) (r : Except Cause Value) :
    Stri2int x i r ↔ (charAt x i).map (fun c => .int (Int64.ofNat c.toNat)) = r := by
  rw [Stri2int, Binary.yields_iff, Binary.apply]

theorem setChar_iff (x : String) (i : Int64) (y : String) (r : Except Cause Value) :
    SetChar x i y r ↔ setChar (.string x) (.int i) (.string y) = r :=
  setCharYields_iff _ _ _ r

theorem int2char_iff (n : Int64) (r : Except Cause Value) :
    Int2char n r ↔ Unary.int2char.apply (.int n) = r :=
  Unary.yields_iff _ _ r

/-- STRLEN stores the number of characters, if it fits -/
theorem exists_strlen (x : String) (h : x.length < 2 ^ 63) :
    ∃ n, Strlen x n ∧ n.toInt = x.length :=
  ⟨_, (strlen_iff x _).mpr rfl, Int64.toInt_ofNat_of_lt h⟩

theorem inRange_iff (x : String) (i : Int64) (h : x.length < 2 ^ 63) :
    InRange x i ↔ 0 ≤ i.toInt ∧ i.toInt < x.length := by
  simp only [InRange, strlen_iff, exists_eq_left', Int64.toInt_ofNat_of_lt h]

/-! ## the character at an index -/

section
variable (x w : String) (i j : Int64) (c : Char)

theorem toNat_lt_length (h : 0 ≤ i.toInt ∧ i.toInt < x.length) :
    i.toInt.toNat < x.toList.length := by
  rw [String.length_toList]
  omega

theorem exists_charAt (h : 0 ≤ i.toInt ∧ i.toInt < x.length) :
    ∃ c, charAt x i = .ok c ∧ x.toList[i.toInt.toNat]? = some c :=
  (guarded_charAt x i).passes (if_pos h)

theorem charAt_of_not_inRange (h : ¬(0 ≤ i.toInt ∧ i.toInt < x.length)) :
    charAt x i = .error (.index i x.length) :=
  (guarded_charAt x i).fails _ (if_neg h)

theorem charAt_eq_ok :
    charAt x i = .ok c ↔ 0 ≤ i.toInt ∧ x.toList[i.toInt.toNat]? = some c := by
  by_cases hi : 0 ≤ i.toInt ∧ i.toInt < x.length
  · obtain ⟨d, hd, hget⟩ := exists_charAt x i hi
    simp only [hd, hget, hi.1, true_and, Except.ok.injEq, Option.some.injEq]
  · rw [charAt_of_not_inRange x i hi]
    refine ⟨fun h => (nomatch h), fun ⟨h0, hget⟩ => absurd ⟨h0, ?_⟩ hi⟩
    obtain ⟨hlt, _⟩ := List.getElem?_eq_some_iff.mp hget
    rw [String.length_toList] at hlt
    omega

/-- an index finds the same in two strings of one length that agree there -/
theorem charAt_congr (hlen : w.length = x.length)
    (h : 0 ≤ i.toInt → w.toList[i.toInt.toNat]? = x.toList[i.toInt.toNat]?) :
    charAt w i = charAt x i := by
  by_cases hi : 0 ≤ i.toInt ∧ i.toInt < x.length
  · obtain ⟨c, hc, hget⟩ := exists_charAt x i hi
    rw [hc, charAt_eq_ok, h hi.1]
    exact ⟨hi.1, hget⟩
  · rw [charAt_of_not_inRange x i hi, charAt_of_not_inRange w i (hlen ▸ hi), hlen]

/-! ### two strings in a row -/

variable (y : String)

theorem charAt_append_left (h : 0 ≤ i.toInt ∧ i.toInt < x.length) :
    charAt (x ++ y) i = charAt x i := by
  obtain ⟨c, hc, hget⟩ := exists_charAt x i h
  rw [hc, charAt_eq_ok, String.toList_append, List.getElem?_append_left (toNat_lt_length x i h)]
  exact ⟨h.1, hget⟩

theorem charAt_append_right (hi : x.length ≤ i.toInt) (hj : j.toInt = i.toInt - x.length) :
    charAt (x ++ y) i = .ok c ↔ charAt y j = .ok c := by
  have hle : x.toList.length ≤ i.toInt.toNat := by
    rw [String.length_toList]
    omega
  have hpos : i.toInt.toNat - x.toList.length = j.toInt.toNat := by
    rw [String.length_toList]
    omega
  rw [charAt_eq_ok, charAt_eq_ok, String.toList_append, List.getElem?_append_right hle, hpos]
  exact and_congr_left fun _ => by omega

/-! ### one character replaced -/

/-- the string with another character at an index -/
def replace (x : String) (i : Int64) (c : Char) : String :=
  String.ofList (x.toList.set i.toInt.toNat c)

theorem toList_replace : (replace x i c).toList = x.toList.set i.toInt.toNat c :=
  String.toList_ofList

theorem length_replace : (replace x i c).length = x.length := by
  rw [← String.length_toList, toList_replace, List.length_set, String.length_toList]

theorem charAt_replace_self (h : 0 ≤ i.toInt ∧ i.toInt < x.length) :
    charAt (replace x i c) i = .ok c := by
  rw [charAt_eq_ok, toList_replace, List.getElem?_set_self (toNat_lt_length x i h)]
  exact ⟨h.1, rfl⟩

theorem charAt_replace_of_ne (hi : 0 ≤ i.toInt) (h : j ≠ i) :
    charAt (replace x i c) j = charAt x j := by
  refine charAt_congr x _ j (length_replace x i c) fun hj => ?_
  have hne : i.toInt.toNat ≠ j.toInt.toNat := fun heq => h (Int64.toInt_inj.mp (by omega))
  rw [toList_replace, List.getElem?_set_ne hne]

end

/-! ## the codes of characters -/

theorem hasChar_iff (n : Int64) :
    0 ≤ n.toInt ∧ n.toInt.toNat.isValidChar ↔
      0 ≤ n.toInt ∧ n.toInt ≤ 0xD7FF ∨ 0xE000 ≤ n.toInt ∧ n.toInt ≤ 0x10FFFF := by
  rw [Nat.isValidChar]
  omega

theorem toInt_code (c : Char) : (Int64.ofNat c.toNat).toInt = c.toNat := by
  have hvalid : c.toNat.isValidChar := c.valid
  exact Int64.toInt_ofNat_of_lt (by rw [Nat.isValidChar] at hvalid; omega)

/-- the code of a character is that of no other -/
theorem charOfCode?_code (c : Char) : charOfCode? (Int64.ofNat c.toNat) = some c := by
  have hvalid : c.toNat.isValidChar := c.valid
  rw [charOfCode?, toInt_code, Int.toNat_natCast, if_pos ⟨by omega, hvalid⟩, Char.ofNat_toNat]

/-- a character has the code that it was made from -/
theorem code_of_charOfCode? (n : Int64) (c : Char) (h : charOfCode? n = some c) :
    Int64.ofNat c.toNat = n := by
  rw [charOfCode?] at h
  split at h
  · next hn =>
    cases h
    have hcode : (Char.ofNat n.toInt.toNat).toNat = n.toInt.toNat := by
      rw [Char.ofNat, dif_pos hn.2]
      rfl
    rw [← Int64.toInt_inj, toInt_code, hcode]
    omega
  · cases h

theorem int2char_ok_iff (n : Int64) (z : Value) :
    Int2char n (.ok z) ↔ ∃ c, charOfCode? n = some c ∧ z = charString c := by
  rw [int2char_iff, Unary.apply]
  cases charOfCode? n with
  | none =>
    constructor
    · intro h
      cases h
    · rintro ⟨_, h, _⟩
      cases h
  | some c => simp only [Except.ok.injEq, Option.some.injEq, exists_eq_left', eq_comm]

/-! ## what the opcodes say of one another -/

section
variable (x y r : String)

/-- an index in a string finds a character there, or is reported with the length -/
theorem indexed (hx : x.length < 2 ^ 63) (i : Int64) :
    ((∃ z, GetChar x i (.ok z)) ↔ InRange x i) ∧ ((∃ z, Stri2int x i (.ok z)) ↔ InRange x i) ∧
      (InRange x i → ∃ c, x.toList[i.toInt.toNat]? = some c ∧ GetChar x i (.ok (charString c)) ∧
        Stri2int x i (.ok (.int (Int64.ofNat c.toNat)))) ∧
      (¬InRange x i → GetChar x i (.error (.index i x.length)) ∧
        Stri2int x i (.error (.index i x.length))) := by
  simp only [inRange_iff x i hx, getChar_iff, stri2int_iff]
  by_cases hi : 0 ≤ i.toInt ∧ i.toInt < x.length
  · obtain ⟨c, hc, hget⟩ := exists_charAt x i hi
    rw [hc]
    exact ⟨⟨fun _ => hi, fun _ => ⟨_, rfl⟩⟩, ⟨fun _ => hi, fun _ => ⟨_, rfl⟩⟩,
      fun _ => ⟨c, hget, rfl, rfl⟩, fun hno => absurd hi hno⟩
  · rw [charAt_of_not_inRange x i hi]
    exact ⟨⟨fun ⟨_, h⟩ => (nomatch h), fun h => absurd h hi⟩,
      ⟨fun ⟨_, h⟩ => (nomatch h), fun h => absurd h hi⟩, fun h => absurd h hi,
      fun _ => ⟨rfl, rfl⟩⟩

/-- the characters of two strings in a row are those of the first and then those of the second -/
theorem concat_indexed (h : x.length + y.length < 2 ^ 63) :
    ∃ lx ly z lz, Strlen x lx ∧ Strlen y ly ∧ Concat x y z ∧ Strlen z lz ∧
      lz.toInt = lx.toInt + ly.toInt ∧
      (∀ i, InRange x i → ∀ q, GetChar z i q ↔ GetChar x i q) ∧
      ∀ i, lx.toInt ≤ i.toInt → ∀ c, GetChar z i (.ok c) ↔ GetChar y (i - lx) (.ok c) := by
  obtain ⟨lx, hlx, hx⟩ := exists_strlen x (by omega)
  obtain ⟨ly, hly, hy⟩ := exists_strlen y (by omega)
  obtain ⟨lz, hlz, hz⟩ := exists_strlen (x ++ y) (by rw [String.length_append]; omega)
  refine ⟨lx, ly, x ++ y, lz, hlx, hly, (concat_iff x y _).mpr rfl, hlz, ?_, fun i hi q => ?_,
    fun i hi c => ?_⟩
  · rw [hz, hx, hy, String.length_append, Int.natCast_add]
  · have hi := (inRange_iff x i (by omega)).mp hi
    rw [getChar_iff, getChar_iff, charAt_append_left x i y hi]
  · have hdiff : (i - lx).toInt = i.toInt - lx.toInt := by
      have hlt := i.toInt_lt
      rw [Int64.toInt_sub]
      exact Int.bmod_eq_of_le (by omega) (by omega)
    simp only [getChar_iff, map_eq_ok]
    rw [hx] at hi hdiff
    simp only [charAt_append_right x i (i - lx) _ y hi hdiff]

theorem replacement_eq_ok (hr : r ≠ "") : ∃ c, replacement r = .ok c ∧ charAt r 0 = .ok c := by
  obtain ⟨c, hc, hhead⟩ := (guarded_replacement r).passes (if_neg hr)
  refine ⟨c, hc, (charAt_eq_ok r 0 c).mpr ⟨Int.le_refl 0, ?_⟩⟩
  rw [← hhead, List.head?_eq_getElem?]
  rfl

/-- one character is replaced, if there is one to replace and one to put there -/
theorem setChar_indexed (hx : x.length < 2 ^ 63) (i : Int64) :
    (¬InRange x i → SetChar x i r (.error (.index i x.length))) ∧
      (InRange x i → r = "" → SetChar x i r (.error .emptyReplacement)) ∧
      (InRange x i → r ≠ "" → ∃ w, SetChar x i r (.ok (.string w)) ∧
        (∀ n, Strlen w n ↔ Strlen x n) ∧ (∀ q, GetChar w i q ↔ GetChar r 0 q) ∧
        ∀ j, j ≠ i → ∀ q, GetChar w j q ↔ GetChar x j q) := by
  simp only [inRange_iff x i hx, setChar_iff, setChar]
  refine ⟨fun hi => ?_, fun hi hr => ?_, fun hi hr => ?_⟩
  · rw [(guarded_position i x.length).fails _ (if_neg hi)]
    rfl
  · obtain ⟨k, hk, _⟩ := (guarded_position i x.length).passes (if_pos hi)
    rw [hk, (guarded_replacement r).fails _ (if_pos hr)]
    rfl
  · obtain ⟨k, hk, rfl, _⟩ := (guarded_position i x.length).passes (if_pos hi)
    obtain ⟨c, hc, hfirst⟩ := replacement_eq_ok r hr
    refine ⟨replace x i c, by rw [hk, hc]; rfl, fun n => ?_, fun q => ?_, fun j hj q => ?_⟩
    · rw [strlen_iff, strlen_iff, length_replace]
    · rw [getChar_iff, getChar_iff, charAt_replace_self x i c hi, hfirst]
    · rw [getChar_iff, getChar_iff, charAt_replace_of_ne x i j c hi.1 hj]

end

/-- a code is one of a character or is reported -/
theorem int2char_codes (n : Int64) :
    ((∃ z, Int2char n (.ok z)) ↔
        0 ≤ n.toInt ∧ n.toInt ≤ 0xD7FF ∨ 0xE000 ≤ n.toInt ∧ n.toInt ≤ 0x10FFFF) ∧
      ((¬∃ z, Int2char n (.ok z)) → Int2char n (.error (.charCode n))) := by
  have hguard := guarded_charOfCode n
  simp only [← hasChar_iff, int2char_iff]
  by_cases hn : 0 ≤ n.toInt ∧ n.toInt.toNat.isValidChar
  · obtain ⟨z, hz, _⟩ := hguard.passes (if_pos hn)
    exact ⟨⟨fun _ => hn, fun _ => ⟨z, hz⟩⟩, fun hno => absurd ⟨z, hz⟩ hno⟩
  · rw [hguard.fails _ (if_neg hn)]
    exact ⟨⟨fun ⟨_, h⟩ => (nomatch h), fun h => absurd h hn⟩, fun _ => rfl⟩

/-- the code of a character makes the character -/
theorem int2char_of_stri2int (x : String) (hx : x.length < 2 ^ 63) (i : Int64) (hi : InRange x i) :
    ∃ n, Stri2int x i (.ok (.int n)) ∧ ∀ q, Int2char n q ↔ GetChar x i q := by
  obtain ⟨c, hc, _⟩ := exists_charAt x i ((inRange_iff x i hx).mp hi)
  refine ⟨Int64.ofNat c.toNat, ?_, fun q => ?_⟩
  · rw [stri2int_iff, hc]
    rfl
  · rw [int2char_iff, getChar_iff, hc, Unary.apply, charOfCode?_code]
    rfl

/-- the character that is made from a code has that code -/
theorem stri2int_of_int2char (n : Int64) (z : Value) (h : Int2char n (.ok z)) :
    ∃ s, z = .string s ∧ Stri2int s 0 (.ok (.int n)) := by
  obtain ⟨c, hc, rfl⟩ := (int2char_ok_iff n z).mp h
  refine ⟨String.ofList [c], rfl, ?_⟩
  have hfirst : charAt (String.ofList [c]) 0 = .ok c := by
    rw [charAt_eq_ok, String.toList_ofList]
    exact ⟨Int.le_refl 0, rfl⟩
  rw [stri2int_iff, hfirst, ← code_of_charOfCode? n c hc]
  rfl

end IPPcode24.Characters

namespace IPPcode24

open Characters in
/-- **The opcodes on strings are about one sequence of characters.**  GETCHAR and STRI2INT find the
character at an index, from zero to below what STRLEN stores, and report any other index with the
length.  CONCAT has the characters of the first string and then those of the second.  SETCHAR checks
the index first, then that there is a character to put there, and changes that position only, to the
first character of the replacement, whether or not that is the target too.  INT2CHAR accepts the
codes of all characters and no others, and the codes of STRI2INT are those, both ways. -/
theorem strings_are_sequences (x y r : String) (h : x.length + y.length + r.length < 2 ^ 63) :
    (∀ i, ((∃ z, GetChar x i (.ok z)) ↔ InRange x i) ∧
      ((∃ z, Stri2int x i (.ok z)) ↔ InRange x i) ∧
      (InRange x i → ∃ c, x.toList[i.toInt.toNat]? = some c ∧ GetChar x i (.ok (charString c)) ∧
        Stri2int x i (.ok (.int (Int64.ofNat c.toNat)))) ∧
      (¬InRange x i → GetChar x i (.error (.index i x.length)) ∧
        Stri2int x i (.error (.index i x.length)))) ∧
    (∃ lx ly z lz, Strlen x lx ∧ Strlen y ly ∧ Concat x y z ∧ Strlen z lz ∧
      lz.toInt = lx.toInt + ly.toInt ∧
      (∀ i, InRange x i → ∀ q, GetChar z i q ↔ GetChar x i q) ∧
      ∀ i, lx.toInt ≤ i.toInt → ∀ c, GetChar z i (.ok c) ↔ GetChar y (i - lx) (.ok c)) ∧
    (∀ i, (¬InRange x i → SetChar x i r (.error (.index i x.length))) ∧
      (InRange x i → r = "" → SetChar x i r (.error .emptyReplacement)) ∧
      (InRange x i → r ≠ "" → ∃ w, SetChar x i r (.ok (.string w)) ∧
        (∀ n, Strlen w n ↔ Strlen x n) ∧ (∀ q, GetChar w i q ↔ GetChar r 0 q) ∧
        ∀ j, j ≠ i → ∀ q, GetChar w j q ↔ GetChar x j q)) ∧
    (∀ n : Int64, ((∃ z, Int2char n (.ok z)) ↔
        0 ≤ n.toInt ∧ n.toInt ≤ 0xD7FF ∨ 0xE000 ≤ n.toInt ∧ n.toInt ≤ 0x10FFFF) ∧
      ((¬∃ z, Int2char n (.ok z)) → Int2char n (.error (.charCode n)))) ∧
    (∀ i, InRange x i → ∃ n, Stri2int x i (.ok (.int n)) ∧ ∀ q, Int2char n q ↔ GetChar x i q) ∧
    (∀ n z, Int2char n (.ok z) → ∃ s, z = .string s ∧ Stri2int s 0 (.ok (.int n))) := by
  have hx : x.length < 2 ^ 63 := by omega
  refine ⟨indexed x hx, concat_indexed x y (by omega), setChar_indexed x r hx, int2char_codes,
    int2char_of_stri2int x hx, stri2int_of_int2char⟩

/-- a character of a string of two-byte characters, replaced by the first one of the same string -/
def replacingMachine : Machine :=
  ⟨Program.ofInstrs [.defVar ⟨.gf, "x"⟩, .unary .move ⟨.gf, "x"⟩ (.literal (.string "žá")),
    .setChar ⟨.gf, "x"⟩ (.literal (.int 1)) (.var ⟨.gf, "x"⟩)], ⟨[]⟩, rfl⟩

theorem strings_are_sequences_aliased :
    let m := replacingMachine
    let s := m.after 2 (State.start [] (Sink.new none) (Sink.new none))
    "žá".length + "".length + "žá".length < 2 ^ 63 ∧ (m.step s).fault = none ∧
      (m.step s).state.memory.frames.read ⟨.gf, "x"⟩ = .ok (.string "žž") := by
  intro m s
  have hlength : "žá".length + "".length + "žá".length < 2 ^ 63 := by decide
  refine ⟨hlength, ?_⟩
  obtain ⟨_, _, hset, _⟩ := strings_are_sequences "žá" "" "žá" hlength
  have hrange : Characters.InRange "žá" 1 :=
    (Characters.inRange_iff "žá" 1 (by decide)).mpr (by decide)
  obtain ⟨w, hw, _⟩ := (hset 1).2.2 hrange (by decide)
  have htext : w = "žž" := by
    have heq := (Characters.setChar_iff "žá" 1 "žá" _).mp hw
    cases heq
    decide
  obtain ⟨fs, hfs, hout⟩ := hw m s 3 ⟨.gf, "x"⟩ (.literal (.int 1)) (.var ⟨.gf, "x"⟩) rfl rfl rfl
  have hstep := m.step_eq_outcome s ⟨3, _⟩ (by decide) rfl
  rw [hstep, hout, ← htext]
  exact ⟨rfl, (fs.read_eq_ok_iff ⟨.gf, "x"⟩ _).mpr hfs.self⟩

end IPPcode24
