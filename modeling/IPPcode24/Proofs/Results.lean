/-!
# Results and failures

* `bind_eq_ok`, `map_eq_ok`   a computation gives a result if its parts do
* `map_eq_error`              a function of the result keeps the failures
* `map_of_bind`, `bind_of_map`   two computations and a function, in either order
* `FailsWith P r`             all that a computation can fail with has a property
* `Alike g R r q`             two computations have related results, or fail alike
-/

namespace IPPcode24

section
variable {ε α β γ : Type}

theorem bind_eq_ok (r : Except ε α) (f : α → Except ε β) (b : β) :
    (r >>= f) = .ok b ↔ ∃ a, r = .ok a ∧ f a = .ok b := by
  cases r with
  | ok a => exact ⟨fun h => ⟨a, rfl, h⟩, fun ⟨_, ha, h⟩ => by cases ha; exact h⟩
  | error c => exact ⟨fun h => (nomatch h), fun ⟨_, ha, _⟩ => (nomatch ha)⟩

theorem map_eq_ok (r : Except ε α) (f : α → β) (b : β) :
    r.map f = .ok b ↔ ∃ a, r = .ok a ∧ f a = b := by
  cases r with
  | ok a => exact ⟨fun h => ⟨a, rfl, by cases h; rfl⟩, fun ⟨_, ha, h⟩ => by cases ha; rw [← h]; rfl⟩
  | error c => exact ⟨fun h => (nomatch h), fun ⟨_, ha, _⟩ => (nomatch ha)⟩

theorem map_eq_error (r : Except ε α) (f : α → β) (e : ε) : r.map f = .error e ↔ r = .error e := by
  cases r with
  | ok a => exact ⟨fun h => (nomatch h), fun h => (nomatch h)⟩
  | error c => exact ⟨fun h => by cases h; rfl, fun h => by cases h; rfl⟩

/-- what is done with the result of two steps is done with that of the second -/
theorem map_of_bind (r : Except ε α) (f : α → Except ε β) (g : β → γ) :
    (r >>= f).map g = r >>= fun a => (f a).map g := by
  cases r <;> rfl

theorem bind_of_map (r : Except ε α) (f : α → β) (g : β → Except ε γ) :
    r.map f >>= g = r >>= fun a => g (f a) := by
  cases r <;> rfl

end

def FailsWith {ε α : Type} (P : ε → Prop) (r : Except ε α) : Prop := ∀ e, r = .error e → P e

namespace FailsWith

section
variable {ε α β : Type} {P : ε → Prop}

theorem ok {a : α} : FailsWith P (.ok a : Except ε α) := fun _ h => (nomatch h)

theorem error {e : ε} (h : P e) : FailsWith P (.error e : Except ε α) := by
  intro e' he
  cases he
  exact h

theorem mono {Q : ε → Prop} (hPQ : ∀ e, P e → Q e) {r : Except ε α} (hr : FailsWith P r) :
    FailsWith Q r := fun e h => hPQ e (hr e h)

theorem bind {r : Except ε α} {f : α → Except ε β} (hr : FailsWith P r)
    (hf : ∀ a, r = .ok a → FailsWith P (f a)) : FailsWith P (r >>= f) := by
  cases r with
  | ok a => exact hf a rfl
  | error e => exact error (hr e rfl)

theorem map {r : Except ε α} {f : α → β} (hr : FailsWith P r) : FailsWith P (r.map f) := by
  cases r with
  | ok a => exact ok
  | error e => exact error (hr e rfl)

end
end FailsWith

/-- both have results, with `R` between them, or both fail, the second with what `g` makes of the
failure of the first -/
inductive Alike {ε α β : Type} (g : ε → ε) (R : α → β → Prop) : Except ε α → Except ε β → Prop where
  | ok (a : α) (b : β) (h : R a b) : Alike g R (.ok a) (.ok b)
  | error (e : ε) : Alike g R (.error e) (.error (g e))

namespace Alike

section
variable {ε α β γ δ : Type} {g : ε → ε} {R : α → β → Prop} {S : γ → δ → Prop}

theorem bind {r : Except ε α} {q : Except ε β} {f : α → Except ε γ} {k : β → Except ε δ}
    (h : Alike g R r q) (hf : ∀ a b, R a b → Alike g S (f a) (k b)) :
    Alike g S (r >>= f) (q >>= k) := by
  cases h with
  | ok a b h => exact hf a b h
  | error e => exact .error e

theorem map {r : Except ε α} {q : Except ε β} {f : α → γ} {k : β → δ} (h : Alike g R r q)
    (hf : ∀ a b, R a b → S (f a) (k b)) : Alike g S (r.map f) (q.map k) := by
  cases h with
  | ok a b h => exact .ok _ _ (hf a b h)
  | error e => exact .error e

/-- a computation is like itself where its failures stay what they are -/
theorem of_fails {P : ε → Prop} {r : Except ε α} (hr : FailsWith P r) (hg : ∀ e, P e → g e = e) :
    Alike g Eq r r := by
  cases r with
  | ok a => exact .ok a a rfl
  | error e =>
    have h : Alike g (Eq : α → α → Prop) (.error e) (.error (g e)) := .error e
    rwa [hg e (hr e rfl)] at h

end
end Alike
end IPPcode24
