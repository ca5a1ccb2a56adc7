import IPPcode24.Channel.Sink
import IPPcode24.Value

/-!
# Output, one value at a time

A value is handed to a channel in pieces, one after the other: an integer has its sign and its
digits apart, everything else is one piece.  After a piece that does not fit nothing more is handed
over.

* `Output.int`, `Output.bool`, `Output.string`   the pieces of an integer, a Boolean and a text
* `Output.value v`     the pieces of a value
* `Sink.write k bs`    whether all of the pieces fit, and the sink after them

`Output.flatten_value` says that the pieces of a value make up its text, and `Sink.write_eq` that
writing pieces is writing all of them at once.
-/

namespace IPPcode24

/-! ## pieces -/

namespace Output

def int (n : Int64) : List Bytes :=
  let digits := utf8 (Nat.toDigits 10 n.toInt.natAbs)
  if n.toInt < 0 then [utf8 ['-'], digits] else [digits]

def bool : Bool → List Bytes
  | true => [utf8 ['t', 'r', 'u', 'e']]
  | false => [utf8 ['f', 'a', 'l', 's', 'e']]

def string (s : String) : List Bytes := [utf8 s.toList]

/-- nil is the empty text, and a type its name -/
def value : Value → List Bytes
  | .int n => int n
  | .bool b => bool b
  | .string s => string s
  | .nil => string ""
  | .type t => string t.name

theorem flatten_string (s : String) : (string s).flatten = utf8 s.toList := List.append_nil _

theorem flatten_int (n : Int64) : (int n).flatten = utf8 (decimal n.toInt) := by
  rw [int]
  cases n.toInt with
  | ofNat k =>
    have hk : ¬ Int.ofNat k < 0 := Int.not_lt.mpr (Int.natCast_nonneg k)
    rw [if_neg hk]
    exact List.append_nil _
  | negSucc k =>
    rw [if_pos (Int.negSucc_lt_zero k), decimal, utf8_cons, List.flatten_cons, List.flatten_cons,
      List.flatten_nil, List.append_nil]
    rfl

/-- **The pieces of a value make up its text.** -/
theorem flatten_value (v : Value) : (value v).flatten = utf8 v.text.toList := by
  cases v with
  | int n => rw [value, flatten_int, Value.text, String.toList_ofList]
  | bool b => cases b <;> rfl
  | string s => exact flatten_string s
  | nil => rfl
  | type t => exact flatten_string t.name

end Output

/-! ## writing -/

namespace Sink

def write (k : Sink) : List Bytes → Bool × Sink
  | [] => (true, k)
  | b :: bs => if k.fits b then (k.push b).write bs else (false, k.push b)

theorem fits_nil (k : Sink) : k.fits [] = true := (k.fits_iff []).mpr fun _ _ => .inl rfl

theorem push_nil (k : Sink) : k.push [] = k :=
  eq_of_bytes _ _ rfl (by rw [bytes_push, k.kept_of_fits [] k.fits_nil, List.append_nil])

section
variable (k : Sink) (b c : Bytes)

/-- behind what fits there is the room that is left -/
theorem fits_push (h : k.fits b = true) : (k.push b).fits c = k.fits (b ++ c) := by
  have hb := (k.fits_iff b).mp h
  rw [Bool.eq_iff_iff, fits_iff, fits_iff, bytes_push, k.kept_of_fits b h]
  refine forall_congr' fun n => forall_congr' fun hn => ?_
  rw [List.length_append, List.length_append, ← Nat.add_assoc]
  rcases hb n hn with rfl | hle
  · rfl
  · cases c with
    | nil => simp [hle]
    | cons x c => simp

theorem push_push (h : k.fits b = true) : (k.push b).push c = k.push (b ++ c) := by
  refine eq_of_bytes _ _ rfl ?_
  have hb := k.kept_of_fits b h
  rw [bytes_push, bytes_push, bytes_push, hb, List.append_assoc]
  cases hl : k.limit with
  | none => simp [kept, push, hl]
  | some n =>
    rw [kept_of_limit _ _ n hl] at hb
    rw [kept_of_limit _ _ n hl, kept_of_limit (k.push b) _ n hl, bytes_push, k.kept_of_fits b h,
      List.take_append, hb, List.length_append, Nat.sub_sub]

/-- behind what does not fit there is nothing -/
theorem not_fits_append (h : k.fits b = false) :
    k.fits (b ++ c) = false ∧ k.push (b ++ c) = k.push b := by
  have hb : ¬ ∀ n, k.limit = some n → b = [] ∨ k.bytes.length + b.length ≤ n := by
    rw [← fits_iff, h]
    exact Bool.false_ne_true
  simp only [Classical.not_forall, not_or, Nat.not_le] at hb
  obtain ⟨n, hn, hne, hlt⟩ := hb
  constructor
  · rw [Bool.eq_false_iff, Ne, fits_iff]
    intro hall
    rcases hall n hn with hnil | hle
    · exact hne (List.append_eq_nil_iff.mp hnil).1
    · rw [List.length_append] at hle
      omega
  · refine eq_of_bytes _ _ rfl ?_
    rw [bytes_push, bytes_push, kept_of_limit _ _ n hn, kept_of_limit _ _ n hn,
      List.take_append_of_le_length (by omega)]

end

/-- **Writing pieces is writing all of them at once.** -/
theorem write_eq (k : Sink) (bs : List Bytes) :
    k.write bs = (k.fits bs.flatten, k.push bs.flatten) := by
  induction bs generalizing k with
  | nil => rw [write, List.flatten_nil, fits_nil, push_nil]
  | cons b bs ih =>
    rw [write, List.flatten_cons]
    cases h : k.fits b with
    | true => rw [if_pos rfl, ih, k.fits_push b _ h, k.push_push b _ h]
    | false =>
      obtain ⟨hfits, hpush⟩ := k.not_fits_append b bs.flatten h
      rw [if_neg Bool.false_ne_true, hfits, hpush]

end Sink
end IPPcode24
