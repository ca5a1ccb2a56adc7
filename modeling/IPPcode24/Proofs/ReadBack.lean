import IPPcode24.Channel.Output
import IPPcode24.Proofs.InputLines
import IPPcode24.Proofs.Literals

/-!
# What is written is read back

A value with a line feed behind it is a line, and a read of its type finds the value there.  Only a
string may be more than a line, or lose its end to the line feed.

* `Value.FitsLine v`         the value is an integer, a Boolean, or a string that is what a line holds
* `Output.line v`            the pieces of a value, and a line feed behind them
* `Input.reads ts b`         reads of these types, one after the other
* `Input.line_utf8`          the first line of a text
* `Input.decimal?_decimal`   **an integer is read from its decimal text**
* `Input.read_line`          **a value that fits a line is read from it**, and no more than the line
* `Input.read_string_iff`    **a string is read back exactly if it fits a line**

Main statement, `Input.reads_written`.
-/

namespace IPPcode24

/-! ## lines of values -/

def Value.FitsLine : Value → Prop
  | .int _ | .bool _ => True
  | .string s => '\n' ∉ s.toList ∧ s.toList.getLast? ≠ some '\r'
  | .nil | .type _ => False

def Output.line (v : Value) : List Bytes := value v ++ string "\n"

/-- the bytes of a value and a line feed behind it -/
def Value.lineBytes (v : Value) : Bytes := utf8 v.text.toList ++ [0x0A]

theorem Output.flatten_line (v : Value) : (line v).flatten = v.lineBytes := by
  rw [line, List.flatten_append, flatten_value, flatten_string]
  rfl

theorem Output.flatten_lines (vs : List Value) :
    (vs.flatMap line).flatten = vs.flatMap Value.lineBytes := by
  induction vs with
  | nil => rfl
  | cons v vs ih =>
    rw [List.flatMap_cons, List.flatMap_cons, List.flatten_append, flatten_line, ih]

/-- a sink without a limit takes all lines -/
theorem Sink.write_lines (vs : List Value) :
    ((Sink.new none).write (vs.flatMap Output.line)).1 = true ∧
      ((Sink.new none).write (vs.flatMap Output.line)).2.bytes = vs.flatMap Value.lineBytes := by
  have hfits := fits_of_free (new none) (vs.flatMap Value.lineBytes) rfl
  have hbytes := bytes_push_of_free (new none) (vs.flatMap Value.lineBytes) rfl
  rw [write_eq, Output.flatten_lines]
  exact ⟨hfits, hbytes⟩

namespace Input

/-! ## one line -/

theorem dropReturn_of_getLast? (s : List Char) (h : s.getLast? ≠ some '\r') : dropReturn s = s :=
  if_neg h

theorem isPrefix_dropReturn (s : List Char) : dropReturn s <+: s := by
  rw [dropReturn]
  split
  · exact List.dropLast_prefix s
  · exact List.prefix_rfl

/-- the carriage return is not kept -/
theorem dropReturn_ne (s : List Char) (h : s.getLast? = some '\r') : dropReturn s ≠ s := by
  intro hs
  have hne : s ≠ [] := by
    intro hnil
    rw [hnil] at h
    cases h
  have hlen := congrArg List.length hs
  rw [dropReturn, if_pos h, List.length_dropLast] at hlen
  have hpos := List.length_pos_iff.mpr hne
  omega

/-- the first line of a text is what stands before its first line feed -/
theorem line_utf8 (s : List Char) (rest : Bytes) (hs : '\n' ∉ s) :
    line (utf8 s ++ 0x0A :: rest) = (some (dropReturn s), rest) := by
  have hb : 0x0A ∉ utf8 s := fun h => hs ((lf_mem_utf8 s).mp h)
  obtain ⟨htake, hdrop⟩ := takeWhile_dropWhile (utf8 s) (0x0A :: rest) hb
  have hfirst : (utf8 s ++ 0x0A :: rest).takeWhile (fun x => x != 0x0A) = utf8 s :=
    htake.trans (List.append_nil _)
  rw [line, hfirst, hdrop]
  show ((utf8? (utf8 s)).map dropReturn, rest) = _
  rw [utf8?_utf8]
  rfl

/-- a read takes a line for what it is in its type -/
theorem read_of_line (t : Ty) (b rest : Bytes) (s : List Char) (ht : t.takesLine = true)
    (h : line b = (some s, rest)) : read t b = (interpret t s, rest) := by
  cases t with
  | int | bool | string => rw [read, h]
  | nil | type => cases ht

/-! ## integers -/

/-- digits are read as the number that they stand for -/
theorem decimal?_of_signed (s digits : List Char) (minus : Bool) (hs : signed s = (minus, digits))
    (hne : digits ≠ []) (hd : ∀ c ∈ digits, c.isDigit = true) :
    decimal? s = int64? (withSign minus (Nat.ofDigitChars 10 digits 0)) := by
  have hempty : digits.isEmpty = false := List.isEmpty_eq_false_iff.mpr hne
  have hall : digits.all Char.isDigit = true := List.all_eq_true.mpr hd
  simp only [decimal?, hs, hempty, hall, Bool.not_true, Bool.or_self, Bool.false_eq_true, if_false]

/-- **An integer is read from its decimal text.** -/
theorem decimal?_decimal (n : Int64) : decimal? (decimal n.toInt) = some n := by
  have hread : ∀ s minus k, signed s = (minus, Nat.toDigits 10 k) →
      decimal? s = int64? (withSign minus k) := by
    intro s minus k hs
    rw [decimal?_of_signed s _ minus hs Nat.toDigits_ne_nil (isDigit_toDigits k),
      Nat.ofDigitChars_toDigits (by decide) (by decide)]
  have hn := int64?_toInt n
  cases hz : n.toInt with
  | ofNat k =>
    rw [hz] at hn
    rw [decimal, hread _ false k (signed_of_isDigit _ (isDigit_toDigits k))]
    exact hn
  | negSucc k =>
    rw [hz] at hn
    rw [decimal, hread _ true (k + 1) rfl]
    exact hn

theorem trim_decimal (n : Int) : trim (decimal n) = decimal n :=
  trim_of_forall _ fun c hc => isBlank_of_isNameChar c (isNameChar_of_mem_decimal n c hc)

/-! ## values -/

/-- the text of a value that fits a line is all of that line -/
theorem text_of_fitsLine (v : Value) (h : v.FitsLine) :
    '\n' ∉ v.text.toList ∧ v.text.toList.getLast? ≠ some '\r' := by
  cases v with
  | int n =>
    -- neither end of a line can stand in a name
    have hno : ∀ c, isNameChar c = false → c ∉ decimal n.toInt := by
      intro c hc hmem
      rw [isNameChar_of_mem_decimal _ c hmem] at hc
      cases hc
    rw [Value.text, String.toList_ofList]
    exact ⟨hno '\n' (by decide +kernel),
      fun hlast => hno '\r' (by decide +kernel) (List.mem_of_getLast? hlast)⟩
  | bool b => cases b <;> decide
  | string s => exact h
  | nil | type t => cases h

theorem interpret_text (v : Value) (h : v.FitsLine) : interpret v.ty v.text.toList = v := by
  cases v with
  | int n =>
    simp only [Value.ty, Value.text, interpret, String.toList_ofList, trim_decimal, decimal?_decimal]
  | bool b => cases b <;> decide
  | string s => exact congrArg Value.string String.ofList_toList
  | nil | type t => cases h

/-- **A value that fits a line is read from it**, and what is behind the line is left. -/
theorem read_line (v : Value) (h : v.FitsLine) (rest : Bytes) :
    read v.ty (v.lineBytes ++ rest) = (v, rest) := by
  obtain ⟨hlf, hcr⟩ := text_of_fitsLine v h
  have hline : line (v.lineBytes ++ rest) = (some v.text.toList, rest) := by
    rw [Value.lineBytes, List.append_assoc]
    show line (utf8 v.text.toList ++ 0x0A :: rest) = _
    rw [line_utf8 _ rest hlf, dropReturn_of_getLast? _ hcr]
  have htakes : v.ty.takesLine = true := by
    cases v with
    | int n | bool b | string s => rfl
    | nil | type t => cases h
  rw [read_of_line v.ty _ rest _ htakes hline, interpret_text v h]

/-- what is read for a string is its first line without a carriage return at the end -/
theorem read_string (s : List Char) (rest : Bytes) (hs : '\n' ∉ s) :
    read .string (utf8 s ++ 0x0A :: rest) = (.string (String.ofList (dropReturn s)), rest) := by
  rw [read_of_line .string _ rest _ rfl (line_utf8 s rest hs)]
  rfl

/-- **A string is read back exactly if it fits a line.** -/
theorem read_string_iff (s : String) :
    (read .string (Value.string s).lineBytes).1 = .string s ↔ (Value.string s).FitsLine := by
  constructor
  · intro h
    by_cases hlf : '\n' ∈ s.toList
    · -- only what stands before the line feed is read
      obtain ⟨a, r, hs, ha⟩ := List.eq_append_cons_of_mem hlf
      have hbytes : (Value.string s).lineBytes = utf8 a ++ 0x0A :: (utf8 r ++ [0x0A]) := by
        show utf8 s.toList ++ [0x0A] = _
        rw [hs, utf8_append, List.append_assoc]
        rfl
      rw [hbytes, read_string a _ ha] at h
      have hread : dropReturn a = s.toList := by
        rw [← Value.string.inj h, String.toList_ofList]
      have hle := (isPrefix_dropReturn a).length_le
      rw [hread, hs, List.length_append, List.length_cons] at hle
      omega
    · refine ⟨hlf, fun hcr => dropReturn_ne s.toList hcr ?_⟩
      have hread : read .string (Value.string s).lineBytes = _ := read_string s.toList [] hlf
      rw [hread] at h
      calc dropReturn s.toList = (String.ofList (dropReturn s.toList)).toList :=
            String.toList_ofList.symm
        _ = s.toList := congrArg String.toList (Value.string.inj h)
  · intro h
    have hread := read_line (.string s) h []
    rw [List.append_nil] at hread
    exact congrArg Prod.fst hread

/-! ## many lines -/

/-- reads of these types, one after the other -/
def reads : List Ty → Bytes → List Value × Bytes
  | [], b => ([], b)
  | t :: ts, b =>
    let r := read t b
    let rs := reads ts r.2
    (r.1 :: rs.1, rs.2)

/-- there is nothing to read behind the end -/
theorem reads_nil (ts : List Ty) : reads ts [] = (ts.map fun _ => .nil, []) := by
  induction ts with
  | nil => rfl
  | cons t ts ih =>
    have hread : read t [] = (.nil, []) := by cases t <;> rfl
    rw [reads, hread, ih]
    rfl

theorem reads_lines (vs : List Value) (h : ∀ v ∈ vs, v.FitsLine) (ts : List Ty) (rest : Bytes) :
    reads (vs.map Value.ty ++ ts) (vs.flatMap Value.lineBytes ++ rest)
      = (vs ++ (reads ts rest).1, (reads ts rest).2) := by
  induction vs with
  | nil => rfl
  | cons v vs ih =>
    obtain ⟨hv, hvs⟩ := List.forall_mem_cons.mp h
    rw [List.map_cons, List.flatMap_cons, List.cons_append, List.append_assoc, reads,
      read_line v hv, ih hvs]
    rfl

/-- **What is written is read back.**  Values that fit a line, written to a channel each with a line
feed behind it, are all written, and reads of their types find them again in their order, with
nothing left for the reads behind them.  A string that does not fit a line is not found again. -/
theorem reads_written (vs : List Value) (h : ∀ v ∈ vs, v.FitsLine) :
    let written := (Sink.new none).write (vs.flatMap Output.line)
    written.1 = true ∧
    (∀ ts, reads (vs.map Value.ty ++ ts) written.2.bytes = (vs ++ ts.map fun _ => .nil, [])) ∧
    ∀ s : String,
      (read .string ((Sink.new none).write (Output.line (.string s))).2.bytes).1 = .string s ↔
        '\n' ∉ s.toList ∧ s.toList.getLast? ≠ some '\r' := by
  intro written
  obtain ⟨hall, hbytes⟩ := Sink.write_lines vs
  refine ⟨hall, fun ts => ?_, fun s => ?_⟩
  · have hreads := reads_lines vs h ts []
    rw [List.append_nil, reads_nil] at hreads
    rw [hbytes, hreads]
  · have hone := (Sink.write_lines [.string s]).2
    rw [List.flatMap_singleton, List.flatMap_singleton] at hone
    rw [hone]
    exact read_string_iff s

/-- a carriage return in the middle of a string, blanks around it, and the least integer -/
theorem reads_written_return :
    let vs : List Value := [.string " a\rü ", .int (-9223372036854775808), .bool false, .string ""]
    (∀ v ∈ vs, v.FitsLine) ∧
      reads [.string, .int, .bool, .string, .string, .int]
        ((Sink.new none).write (vs.flatMap Output.line)).2.bytes = (vs ++ [.nil, .nil], []) := by
  intro vs
  have hfits : ∀ v ∈ vs, v.FitsLine := by
    intro v hv
    simp only [vs, List.mem_cons, List.not_mem_nil, or_false] at hv
    rcases hv with h | h | h | h
    all_goals
      rw [h]
      trivial
  exact ⟨hfits, (reads_written vs hfits).2.1 [.string, .int]⟩

end Input
end IPPcode24
