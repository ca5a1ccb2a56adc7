/-!
# Numbers as text

* `decimal n`            the decimal text of an integer
* `digit? base c`        the value of a digit below `base`; letters of both cases go on from ten
* `natOfDigits? base s`  the value of one or more digits
* `natWithin? max base s`   the same, digit by digit, unless what is read so far exceeds `max`
* `signed s`             whether a minus stands before a text, and the text after its sign
* `withSign minus n`     `n` or its negation
-/

namespace IPPcode24

/-- the decimal text of an integer: no leading zeros, a minus before a negative one -/
def decimal : Int → List Char
  | .ofNat n => Nat.toDigits 10 n
  | .negSucc n => '-' :: Nat.toDigits 10 (n + 1)

def digit? (base : Nat) (c : Char) : Option Nat :=
  let d :=
    if c.isDigit then c.toNat - '0'.toNat
    else if 'a' ≤ c ∧ c ≤ 'z' then c.toNat - 'a'.toNat + 10
    else if 'A' ≤ c ∧ c ≤ 'Z' then c.toNat - 'A'.toNat + 10
    else base
  if d < base then some d else none

def natOfDigits? (base : Nat) (s : List Char) : Option Nat :=
  if s.isEmpty then none
  else (s.mapM (digit? base)).map fun ds => ds.foldl (fun n d => n * base + d) 0

/-- a number and one more digit -/
def pushDigit? (max base n d : Nat) : Option Nat :=
  if n * base + d ≤ max then some (n * base + d) else none

def natWithin? (max base : Nat) (s : List Char) : Option Nat :=
  if s.isEmpty then none
  else (s.mapM (digit? base)).bind fun ds => ds.foldlM (pushDigit? max base) 0

/-- a sign is one `+` or `-` -/
def signed : List Char → Bool × List Char
  | '-' :: s => (true, s)
  | '+' :: s => (false, s)
  | s => (false, s)

def withSign (minus : Bool) (n : Nat) : Int := if minus then -n else n

/-- an integer of 64 bits, if `n` is in their range -/
def int64? (n : Int) : Option Int64 :=
  if Int64.minValue.toInt ≤ n ∧ n ≤ Int64.maxValue.toInt then some (Int64.ofInt n) else none

theorem le_foldl_digits (base : Nat) (hb : 0 < base) (ds : List Nat) :
    ∀ n, n ≤ ds.foldl (fun n d => n * base + d) n := by
  induction ds with
  | nil => intro n; exact Nat.le_refl n
  | cons d ds ih =>
    intro n
    have hn : n ≤ n * base := Nat.le_mul_of_pos_right n hb
    exact Nat.le_trans (Nat.le_add_right_of_le hn) (ih (n * base + d))

/-- more digits do not make a number smaller, so one that is too much at last is found out -/
theorem foldlM_pushDigit? (max base : Nat) (hb : 0 < base) (ds : List Nat) : ∀ n, n ≤ max →
    ds.foldlM (pushDigit? max base) n
      = (some (ds.foldl (fun n d => n * base + d) n)).filter fun k => decide (k ≤ max) := by
  induction ds with
  | nil =>
    intro n hn
    rw [List.foldlM_nil, List.foldl_nil, Option.filter_some, if_pos (decide_eq_true hn)]
    rfl
  | cons d ds ih =>
    intro n hn
    rw [List.foldlM_cons, List.foldl_cons, pushDigit?]
    by_cases hd : n * base + d ≤ max
    · rw [if_pos hd]
      exact ih (n * base + d) hd
    · have hle := le_foldl_digits base hb ds (n * base + d)
      have hgt : ¬ ds.foldl (fun n d => n * base + d) (n * base + d) ≤ max := by omega
      rw [if_neg hd, Option.filter_some, if_neg (by rw [decide_eq_true_eq]; exact hgt)]
      rfl

/-- reading within a limit refuses what exceeds it, and nothing else -/
theorem natWithin?_eq (max base : Nat) (hb : 0 < base) (s : List Char) :
    natWithin? max base s = (natOfDigits? base s).filter fun n => decide (n ≤ max) := by
  rw [natWithin?, natOfDigits?]
  by_cases hs : s.isEmpty = true
  · rw [if_pos hs, if_pos hs]
    rfl
  · rw [if_neg hs, if_neg hs]
    cases s.mapM (digit? base) with
    | none => rfl
    | some ds => exact foldlM_pushDigit? max base hb ds 0 (Nat.zero_le max)

theorem toInt_of_int64? (n : Int) (k : Int64) (h : int64? n = some k) : k.toInt = n := by
  rw [int64?] at h
  split at h
  · next hn => cases h; exact Int64.toInt_ofInt_of_le hn.1 (Int.lt_add_one_of_le hn.2)
  · cases h

theorem int64?_toInt (k : Int64) : int64? k.toInt = some k := by
  rw [int64?, if_pos ⟨k.minValue_le_toInt, k.toInt_le⟩, Int64.ofInt_toInt]

end IPPcode24
