import IPPcode24.Text.Utf8

/-!
# Output channels

A sink keeps the bytes written to it, up to a limit if it has one.

* `Sink.fits k b`    there is room for all of `b`
* `Sink.push k b`    the sink after writing `b`: it keeps what fits
* `Sink.bytes k`     the bytes kept so far
* `Sink.portion n k`   what is handed on once there are `n` bytes, and the sink without it
-/

namespace IPPcode24

structure Sink where
  limit : Option Nat
  written : Array UInt8
deriving DecidableEq, Repr

namespace Sink

def new (limit : Option Nat) : Sink := ⟨limit, #[]⟩

def bytes (k : Sink) : Bytes := k.written.toList

def fits (k : Sink) (b : Bytes) : Bool :=
  match k.limit with
  | none => true
  | some n => b.isEmpty || decide (k.written.size + b.length ≤ n)

def kept (k : Sink) (b : Bytes) : Bytes :=
  match k.limit with
  | none => b
  | some n => b.take (n - k.written.size)

def push (k : Sink) (b : Bytes) : Sink := { k with written := k.written ++ k.kept b }

def portion (size : Nat) (k : Sink) : Bytes × Sink :=
  if k.written.size < size then ([], k) else (k.bytes, { k with written := #[] })

theorem bytes_push (k : Sink) (b : Bytes) : (k.push b).bytes = k.bytes ++ k.kept b := by
  simp [push, bytes]

theorem kept_of_fits (k : Sink) (b : Bytes) (h : k.fits b = true) : k.kept b = b := by
  cases hl : k.limit with
  | none => simp [kept, hl]
  | some n =>
    simp only [kept, fits, hl, Bool.or_eq_true, List.isEmpty_iff, decide_eq_true_eq] at h ⊢
    rcases h with rfl | h
    · exact List.take_nil
    · exact List.take_of_length_le (by omega)

theorem kept_isPrefix (k : Sink) (b : Bytes) : k.kept b <+: b := by
  rw [kept]
  cases k.limit with
  | none => exact List.prefix_rfl
  | some n => exact List.take_prefix _ b

/-- where not all fits something is left out -/
theorem kept_ne_of_not_fits (k : Sink) (b : Bytes) (h : k.fits b = false) : k.kept b ≠ b := by
  cases hl : k.limit with
  | none => simp [fits, hl] at h
  | some n =>
    simp only [fits, kept, hl, Bool.or_eq_false_iff, List.isEmpty_eq_false_iff,
      decide_eq_false_iff_not] at h ⊢
    intro ht
    have hlen : (b.take (n - k.written.size)).length = b.length := by rw [ht]
    rw [List.length_take] at hlen
    have hpos : 0 < b.length := List.length_pos_iff.mpr h.1
    omega

/-! ## sinks by their bytes -/

theorem eq_of_bytes (k j : Sink) (hl : j.limit = k.limit) (hb : j.bytes = k.bytes) : j = k := by
  obtain ⟨l, w⟩ := k
  obtain ⟨l', w'⟩ := j
  cases hl
  cases Array.toList_inj.mp hb
  rfl

theorem fits_iff (k : Sink) (b : Bytes) :
    k.fits b = true ↔ ∀ n, k.limit = some n → b = [] ∨ k.bytes.length + b.length ≤ n := by
  rw [fits, bytes, Array.length_toList]
  cases k.limit <;> simp

theorem kept_of_limit (k : Sink) (b : Bytes) (n : Nat) (h : k.limit = some n) :
    k.kept b = b.take (n - k.bytes.length) := by
  rw [kept, h, bytes, Array.length_toList]

/-! ## sinks without a limit -/

section
variable (k : Sink) (b : Bytes) (h : k.limit = none)
include h

theorem fits_of_free : k.fits b = true := by
  rw [fits, h]

theorem bytes_push_of_free : (k.push b).bytes = k.bytes ++ b := by
  rw [bytes_push, kept, h]

end
end Sink
end IPPcode24
