import IPPcode24.Proofs.Notation

/-!
# Variables and literals as symbols

What stands before the first `@` of a symbol decides how it is read.  With the name of a frame there
it is read as the reader of variables reads it, with the same failures; any other text there is the
type of a literal, and all that comes behind the `@` is the text of that literal.

* `Var.parse_frame`, `Symbol.parse_frame`   a text with the name of a frame before the first `@`
* `Symbol.parse_type`          a text with another text there
* `Var.parse_literal`          a literal is no variable
* `avoids_of_isName`           no name has a character that parts names, words, comments or escapes
* `Escape.decode?_append_cons`   a character that is part of no escape stands for itself
* `Operand.parse_string_append`   so an `@` does, wherever it stands in a string literal

Main statement, `Operand.symbol_notation`.
-/

namespace IPPcode24

/-! ## the text before the first `@` -/

section
variable (f : FrameName) (s : List Char)

theorem Var.parse_frame : Var.parse (f.text.toList ++ '@' :: s) = Var.named f s := by
  unfold Var.parse
  rw [cutAt_at_frame]
  show (FrameName.parse f.text.toList).bind _ = _
  rw [(FrameName.parse_eq_ok _ f).mpr rfl]
  rfl

theorem Symbol.parse_frame :
    Symbol.parse (f.text.toList ++ '@' :: s) = (Var.named f s).map .var := by
  unfold Symbol.parse
  simp only [cutAt_at_frame, FrameName.ofText?_text]

/-- the same variable or the same failure -/
theorem Operand.parse_frame : Operand.parse .symbol (f.text.toList ++ '@' :: s)
    = Operand.parse .var (f.text.toList ++ '@' :: s) := by
  show (Symbol.parse _).map _ = (Var.parse _).map _
  rw [Symbol.parse_frame, Var.parse_frame]
  cases Var.named f s <;> rfl

end

theorem Symbol.parse_type (ty s : List Char) (hat : '@' ∉ ty)
    (hframe : ∀ f : FrameName, ty ≠ f.text.toList) :
    Symbol.parse (ty ++ '@' :: s) = (Value.ofLiteral ty s).map .literal := by
  have hcut : cutAt '@' (ty ++ '@' :: s) = some (ty, s) := (cutAt_eq_some _ _ _ _).mpr ⟨rfl, hat⟩
  have hnone : FrameName.ofText? ty = none := (FrameName.ofText?_eq_none ty).mpr hframe
  unfold Symbol.parse
  simp only [hcut, hnone]

theorem Operand.parse_type (ty s : List Char) (hat : '@' ∉ ty)
    (hframe : ∀ f : FrameName, ty ≠ f.text.toList) :
    Operand.parse .symbol (ty ++ '@' :: s) = (Value.ofLiteral ty s).map .literal := by
  show (Symbol.parse _).map _ = _
  rw [Symbol.parse_type ty s hat hframe]
  cases Value.ofLiteral ty s <;> rfl

/-- the name of a type is not that of a frame -/
theorem Var.parse_literal (ty s : List Char) (x : Value) (h : Value.ofLiteral ty s = .ok x) :
    Var.parse (ty ++ '@' :: s) = .error (.invalidFrame (String.ofList ty)) := by
  obtain ⟨rfl, _⟩ := (Value.ofLiteral_eq_ok ty s x).mp h
  unfold Var.parse
  rw [cutAt_at_type]
  show (FrameName.parse x.ty.name.toList).bind _ = _
  unfold FrameName.parse
  rw [FrameName.ofText?_type]
  rfl

/-! ## names -/

/-- **No name has white space, a comment sign, a backslash or an `@` in it.** -/
theorem avoids_of_isName (s : List Char) (h : isName s = true) :
    ∀ c ∈ s, isBlank c = false ∧ c ≠ '#' ∧ c ≠ '\\' ∧ c ≠ '@' := by
  intro c hc
  have hname := (isNameChar_of_isName s h).2 c hc
  have hmarks : isNameChar '\\' = false ∧ isNameChar '@' = false := by decide +kernel
  obtain ⟨hblank, hcomment⟩ := (isPlain_iff c).mp (isPlain_of_isNameChar c hname)
  refine ⟨hblank, hcomment, fun hback => ?_, fun hat => ?_⟩
  · rw [hback, hmarks.1] at hname
    cases hname
  · rw [hat, hmarks.2] at hname
    cases hname

/-! ## strings with an `@` in them -/

namespace Escape

theorem decode?_backslash (u : List Char)
    (h : ∀ x y z v, u = x :: y :: z :: v → ¬(x.isDigit && y.isDigit && z.isDigit) = true) :
    decode? ('\\' :: u) = none := by
  match u, h with
  | [], _ => rfl
  | [_], _ => rfl
  | [_, _], _ => rfl
  | x :: y :: z :: v, h =>
    rw [decode?, if_neg (h x y z v rfl)]

/-- a character that is part of no escape stands for itself, so the texts before and behind it are
decoded apart -/
theorem decode?_append_cons (c : Char) (hc : c ≠ '\\') (hdigit : c.isDigit = false)
    (t u : List Char) :
    decode? (t ++ c :: u) = (decode? t).bind fun s => (decode? u).map (s ++ c :: ·) := by
  have hcons : ∀ (d : Char) (r : Option (List Char)),
      (r.bind fun s => (decode? u).map (s ++ c :: ·)).map (d :: ·)
        = (r.map (d :: ·)).bind fun s => (decode? u).map (s ++ c :: ·) := by
    intro d r
    cases r <;> cases decode? u <;> rfl
  fun_induction decode? t with
  | case1 => exact decode?_cons c u hc
  | case2 x y z t hd ih =>
    show decode? ('\\' :: x :: y :: z :: (t ++ c :: u)) = _
    rw [decode?_escape x y z _ hd, ih, hcons]
  | case3 x y z t hd =>
    show decode? ('\\' :: x :: y :: z :: (t ++ c :: u)) = none
    rw [decode?, if_neg hd]
  | case4 t hshort =>
    -- too few characters stand before `c`, so it would have to be one of the three digits
    refine decode?_backslash _ fun x y z v h => ?_
    rcases t with _ | ⟨a, _ | ⟨b, _ | ⟨d, t⟩⟩⟩
    · cases h
      simp [hdigit]
    · cases h
      simp [hdigit]
    · cases h
      simp [hdigit]
    · exact (hshort a b d t rfl rfl).elim
  | case5 d t hshort hd ih =>
    show decode? (d :: (t ++ c :: u)) = _
    rw [decode?_cons d _ hd, ih, hcons]

end Escape

/-- what the text behind the `@` of a string literal stands for -/
theorem Operand.parse_string (t : List Char) (s : String) :
    Operand.parse .symbol ("string@".toList ++ t) = .ok (.literal (.string s)) ↔
      Escape.decode? t = some s.toList := by
  rw [Operand.parse_eq_ok]
  show _ ∧ (∃ text, "string".toList ++ '@' :: t = Ty.string.name.toList ++ '@' :: text ∧
    Escape.decode? text = some s.toList) ↔ _
  constructor
  · intro h
    obtain ⟨_, text, htext, hs⟩ := h
    obtain rfl := (List.cons.inj (List.append_cancel_left htext)).2
    exact hs
  · intro h
    exact ⟨rfl, t, rfl, h⟩

/-- an `@` stands for itself, wherever it stands in a string literal -/
theorem Operand.parse_string_append (t u : List Char) (s : String) :
    Operand.parse .symbol ("string@".toList ++ (t ++ '@' :: u)) = .ok (.literal (.string s)) ↔
      ∃ s₁ s₂, Operand.parse .symbol ("string@".toList ++ t) = .ok (.literal (.string s₁)) ∧
        Operand.parse .symbol ("string@".toList ++ u) = .ok (.literal (.string s₂)) ∧
        s = s₁ ++ "@" ++ s₂ := by
  simp only [Operand.parse_string]
  rw [Escape.decode?_append_cons '@' (by decide) rfl, Option.bind_eq_some_iff]
  constructor
  · intro h
    obtain ⟨s₁, h₁, h⟩ := h
    obtain ⟨s₂, h₂, hs⟩ := Option.map_eq_some_iff.mp h
    refine ⟨String.ofList s₁, String.ofList s₂, by simpa using h₁, by simpa using h₂, ?_⟩
    apply String.toList_injective
    simp [← hs]
  · intro h
    obtain ⟨s₁, s₂, h₁, h₂, rfl⟩ := h
    refine ⟨s₁.toList, h₁, Option.map_eq_some_iff.mpr ⟨s₂.toList, h₂, ?_⟩⟩
    simp

/-! ## the main statement -/

/-- **Symbols are not ambiguous, and variables are read back.**  A text is read as a variable where
a symbol is expected if and only if it is where a variable is, and as the same one.  With the name
of a frame before the first `@` the two readers agree on failures too; so no text that is read as a
variable is read as a literal, and a type with a text behind it that is a literal is no variable.
A variable is read from its own text only, and is read from that if its name is valid; no valid name
has an `@`, a comment sign, a backslash or white space in it.  With any other text before the first
`@` that text is the type, and all that comes behind is the text of the literal; in a string each
further `@` stands for itself. -/
theorem Operand.symbol_notation :
    (∀ t v, Operand.parse .symbol t = .ok (.var v) ↔ Operand.parse .var t = .ok (.var v)) ∧
    (∀ (f : FrameName) s, Operand.parse .symbol (f.text.toList ++ '@' :: s)
      = Operand.parse .var (f.text.toList ++ '@' :: s)) ∧
    (∀ t v x, Operand.parse .var t = .ok (.var v) → Operand.parse .symbol t ≠ .ok (.literal x)) ∧
    (∀ ty s x, Value.ofLiteral ty s = .ok x →
      Operand.parse .var (ty ++ '@' :: s) = .error (.invalidFrame (String.ofList ty))) ∧
    (∀ t v, Var.parse t = .ok v → v.text.toList = t) ∧
    (∀ (f : FrameName) (name : String), isName name.toList = true →
      Var.parse (Var.text ⟨f, name⟩).toList = .ok ⟨f, name⟩) ∧
    (∀ s, isName s = true → ∀ c ∈ s, isBlank c = false ∧ c ≠ '#' ∧ c ≠ '\\' ∧ c ≠ '@') ∧
    (∀ ty s, '@' ∉ ty → (∀ f : FrameName, ty ≠ f.text.toList) →
      Operand.parse .symbol (ty ++ '@' :: s) = (Value.ofLiteral ty s).map .literal) ∧
    (∀ t u s,
      Operand.parse .symbol ("string@".toList ++ (t ++ '@' :: u)) = .ok (.literal (.string s)) ↔
      ∃ s₁ s₂, Operand.parse .symbol ("string@".toList ++ t) = .ok (.literal (.string s₁)) ∧
        Operand.parse .symbol ("string@".toList ++ u) = .ok (.literal (.string s₂)) ∧
        s = s₁ ++ "@" ++ s₂) := by
  have hsame : ∀ t v,
      Operand.parse .symbol t = .ok (.var v) ↔ Operand.parse .var t = .ok (.var v) := by
    intro t v
    rw [Operand.parse_eq_ok, Operand.parse_eq_ok]
    exact Iff.rfl
  refine ⟨hsame, Operand.parse_frame, fun t v x hv hx => ?_, fun ty s x h => ?_, fun t v h => ?_,
    fun f name h => ?_, avoids_of_isName, Operand.parse_type, Operand.parse_string_append⟩
  · cases ((hsame t v).mpr hv).symm.trans hx
  · show (Var.parse _).map _ = _
    rw [Var.parse_literal ty s x h]
    rfl
  · exact ((Var.parse_eq_ok t v).mp h).2.symm
  · exact (Var.parse_eq_ok _ ⟨f, name⟩).mpr ⟨h, rfl⟩

/-- a string with the notation of a variable in it, a variable with an `@` too many, and one with a
name of a letter beyond ASCII, a mark and a number -/
theorem Operand.symbol_notation_mixed :
    let t := "string@a@LF@b\\064".toList
    let u := "TF@é$1".toList
    let v : Var := ⟨.tf, "é$1"⟩
    Operand.parse .symbol t = .ok (.literal (.string "a@LF@b@")) ∧
    Operand.parse .var t = .error (.invalidFrame "string") ∧
    Operand.parse .symbol "LF@a@b".toList = .error (.invalidIdentifier "a@b") ∧
    Operand.parse .symbol u = .ok (.var v) ∧ (∀ x, Operand.parse .symbol u ≠ .ok (.literal x)) ∧
    v.text.toList = u ∧ Var.parse v.text.toList = .ok v ∧ isBlank '$' = false := by
  intro t u v
  obtain ⟨hsame, hframe, hno, hliteral, htext, hread, hname, htype, _⟩ := Operand.symbol_notation
  have hvalid : isName v.name.toList = true := by decide +kernel
  have hvar : Operand.parse .var u = .ok (.var v) := by decide +kernel
  refine ⟨?_, ?_, ?_, (hsame u v).mpr hvar, fun x => hno u v x hvar, ?_, hread .tf "é$1" hvalid,
    (hname _ hvalid '$' (by decide)).1⟩
  · have hframes : ∀ f : FrameName, "string".toList ≠ f.text.toList := by
      intro f
      cases f <;> decide
    exact (htype _ "a@LF@b\\064".toList (by decide) hframes).trans (by decide +kernel)
  · exact hliteral "string".toList _ (.string "a@LF@b@") (by decide +kernel)
  · exact (hframe .lf "a@b".toList).trans (by decide +kernel)
  · exact htext u v (by decide +kernel)

end IPPcode24
