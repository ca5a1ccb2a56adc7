import IPPcode24.Proofs.Literals
import IPPcode24.Proofs.Records

/-!
# Operands and the texts that denote them

The text of an operand is read as the signature of the opcode says.  What it can be read as does not
depend on the kind that is expected: `Operand.Denotes` is the one relation between texts and
operands, and a reader of any kind follows it.

* `Operand.Denotes t o`       the text denotes the operand
* `Kind.parse_eq_ok`          **what is read is what is denoted**
* `Operand.parse_eq_ok`       an operand is read where it fits, from the texts that denote it
* `Instr.parse_eq_ok`         an instruction is read from texts that denote its operands
* `Operand.IsWritable o`      the names are valid, the type is one of three, the value is written as
                              a literal
* `Operand.source o`          the operand as it is written
* `Operand.isWritable_iff`    **the operands that are denoted by a word are the writable ones**
-/

namespace IPPcode24

/-! ## names -/

theorem checkName_eq_ok (s : List Char) (name : String) :
    checkName s = .ok name ↔ isName name.toList = true ∧ s = name.toList := by
  rw [checkName]
  split
  · next h =>
    constructor
    · intro hs
      cases hs
      rw [String.toList_ofList]
      exact ⟨h, rfl⟩
    · rintro ⟨_, rfl⟩
      rw [String.ofList_toList]
  · next h =>
    refine ⟨fun hs => (nomatch hs), ?_⟩
    rintro ⟨hname, rfl⟩
    exact absurd hname h

theorem FrameName.ofText?_eq_some (s : List Char) (f : FrameName) :
    FrameName.ofText? s = some f ↔ s = f.text.toList := by
  constructor
  · intro h
    have hf := List.find?_some h
    exact (eq_of_beq hf).symm
  · rintro rfl
    exact f.ofText?_text

theorem FrameName.ofText?_eq_none (s : List Char) :
    FrameName.ofText? s = none ↔ ∀ f : FrameName, s ≠ f.text.toList := by
  rw [Option.eq_none_iff_forall_ne_some]
  exact forall_congr' fun f => not_congr (FrameName.ofText?_eq_some s f)

theorem FrameName.parse_eq_ok (s : List Char) (f : FrameName) :
    FrameName.parse s = .ok f ↔ s = f.text.toList := by
  rw [FrameName.parse, ← FrameName.ofText?_eq_some]
  cases FrameName.ofText? s with
  | some g => exact ⟨fun h => by cases h; rfl, fun h => by cases h; rfl⟩
  | none => exact ⟨fun h => (nomatch h), fun h => (nomatch h)⟩

theorem Ty.ofName?_eq_some (s : List Char) (t : Ty) :
    Ty.ofName? s = some t ↔ s = t.name.toList := by
  constructor
  · intro h
    have ht := List.find?_some h
    exact (eq_of_beq ht).symm
  · rintro rfl
    exact t.ofName?_name

theorem Var.toList_text (v : Var) :
    v.text.toList = v.frame.text.toList ++ '@' :: v.name.toList := by
  rw [Var.text, String.toList_append, String.toList_append, List.append_assoc]
  rfl

theorem Var.named_eq_ok (f : FrameName) (s : List Char) (v : Var) :
    Var.named f s = .ok v ↔ v.frame = f ∧ isName v.name.toList = true ∧ s = v.name.toList := by
  rw [Var.named, map_eq_ok]
  constructor
  · rintro ⟨name, hname, rfl⟩
    exact ⟨rfl, (checkName_eq_ok s name).mp hname⟩
  · rintro ⟨rfl, h⟩
    exact ⟨v.name, (checkName_eq_ok s v.name).mpr h, rfl⟩

/-- no frame and no type has an `@` in its name -/
theorem cutAt_at_frame (f : FrameName) (s : List Char) :
    cutAt '@' (f.text.toList ++ '@' :: s) = some (f.text.toList, s) :=
  (cutAt_eq_some _ _ _ _).mpr ⟨rfl, by cases f <;> decide⟩

theorem cutAt_at_type (t : Ty) (s : List Char) :
    cutAt '@' (t.name.toList ++ '@' :: s) = some (t.name.toList, s) :=
  (cutAt_eq_some _ _ _ _).mpr ⟨rfl, by cases t <;> decide⟩

theorem Var.parse_eq_ok (s : List Char) (v : Var) :
    Var.parse s = .ok v ↔ isName v.name.toList = true ∧ s = v.text.toList := by
  rw [Var.parse, Var.toList_text]
  constructor
  · intro h
    cases hcut : cutAt '@' s with
    | none => rw [hcut] at h; cases h
    | some ab =>
      obtain ⟨a, b⟩ := ab
      rw [hcut] at h
      obtain ⟨f, hf, hv⟩ := (bind_eq_ok _ _ _).mp h
      obtain ⟨rfl, hname, rfl⟩ := (Var.named_eq_ok f b v).mp hv
      obtain ⟨rfl, _⟩ := (cutAt_eq_some _ _ _ _).mp hcut
      rw [(FrameName.parse_eq_ok a _).mp hf]
      exact ⟨hname, rfl⟩
  · rintro ⟨hname, rfl⟩
    rw [cutAt_at_frame]
    refine (bind_eq_ok _ _ _).mpr ⟨v.frame, (FrameName.parse_eq_ok _ _).mpr rfl, ?_⟩
    exact (Var.named_eq_ok v.frame _ v).mpr ⟨rfl, hname, rfl⟩

/-! ## values -/

/-- the text after the `@` of a literal denotes the value -/
def Value.Denotes (text : List Char) : Value → Prop
  | .int n => intLiteral? text = some n
  | .bool b => boolLiteral? text = some b
  | .string s => Escape.decode? text = some s.toList
  | .nil => text = Ty.nil.name.toList
  | .type _ => False

theorem Ty.read?_eq_some (t : Ty) (text : List Char) (x : Value) :
    t.read? text = some x ↔ x.ty = t ∧ x.Denotes text := by
  constructor
  · intro h
    cases t with
    | int | bool =>
      obtain ⟨n, hn, rfl⟩ := Option.map_eq_some_iff.mp h
      exact ⟨rfl, hn⟩
    | string =>
      obtain ⟨s, hs, rfl⟩ := Option.map_eq_some_iff.mp h
      refine ⟨rfl, ?_⟩
      rw [Value.Denotes, String.toList_ofList]
      exact hs
    | nil =>
      rw [read?, Option.ite_none_right_eq_some] at h
      obtain ⟨htext, hx⟩ := h
      cases hx
      exact ⟨rfl, htext⟩
    | type => cases h
  · rintro ⟨rfl, h⟩
    cases x with
    | int n => exact Option.map_eq_some_iff.mpr ⟨n, h, rfl⟩
    | bool b => exact Option.map_eq_some_iff.mpr ⟨b, h, rfl⟩
    | string s =>
      exact Option.map_eq_some_iff.mpr ⟨s.toList, h, by rw [String.ofList_toList]⟩
    | nil => exact if_pos h
    | type t => cases h

theorem Value.ofLiteral_eq_ok (ty text : List Char) (x : Value) :
    Value.ofLiteral ty text = .ok x ↔ ty = x.ty.name.toList ∧ x.Denotes text := by
  constructor
  · intro h
    cases hty : Ty.ofName? ty with
    | none => rw [Value.ofLiteral, hty] at h; cases h
    | some t =>
      obtain rfl := (Ty.ofName?_eq_some ty t).mp hty
      rw [ofLiteral_name_eq_ok, Ty.read?_eq_some] at h
      exact ⟨by rw [h.1], h.2⟩
  · rintro ⟨rfl, h⟩
    rw [ofLiteral_name_eq_ok, Ty.read?_eq_some]
    exact ⟨rfl, h⟩

/-! ## operands -/

/-- the types that READ can produce -/
def Ty.IsReadable (t : Ty) : Prop := t = .int ∨ t = .bool ∨ t = .string

instance (t : Ty) : Decidable t.IsReadable :=
  inferInstanceAs (Decidable (t = .int ∨ t = .bool ∨ t = .string))

theorem Ty.parse_eq_ok (s : List Char) (t : Ty) :
    Ty.parse s = .ok t ↔ t.IsReadable ∧ s = t.name.toList := by
  rw [Ty.parse, ← Ty.ofName?_eq_some]
  cases Ty.ofName? s with
  | none => exact ⟨fun h => (nomatch h), fun h => (nomatch h.2)⟩
  | some t' =>
    rw [Option.some.injEq]
    cases t' <;> cases t <;> simp [Ty.IsReadable]

def Operand.Denotes (t : List Char) : Operand → Prop
  | .var v => isName v.name.toList = true ∧ t = v.text.toList
  | .label name => isName name.toList = true ∧ t = name.toList
  | .literal x => ∃ text, t = x.ty.name.toList ++ '@' :: text ∧ x.Denotes text
  | .type ty => ty.IsReadable ∧ t = ty.name.toList

theorem FrameName.ofText?_type (ty : Ty) : FrameName.ofText? ty.name.toList = none := by
  cases ty <;> rfl

theorem Symbol.parse_eq_ok (t : List Char) (a : Symbol) :
    Symbol.parse t = .ok a ↔ a.operand.Denotes t := by
  constructor
  · intro h
    rw [Symbol.parse] at h
    cases hcut : cutAt '@' t with
    | none => rw [hcut] at h; cases h
    | some ab =>
      obtain ⟨before, after⟩ := ab
      obtain ⟨rfl, _⟩ := (cutAt_eq_some _ _ _ _).mp hcut
      simp only [hcut] at h
      cases hf : FrameName.ofText? before with
      | some f =>
        simp only [hf] at h
        obtain ⟨v, hv, rfl⟩ := (map_eq_ok _ _ _).mp h
        obtain ⟨rfl, hname, rfl⟩ := (Var.named_eq_ok f after v).mp hv
        rw [(FrameName.ofText?_eq_some before v.frame).mp hf]
        exact ⟨hname, v.toList_text.symm⟩
      | none =>
        simp only [hf] at h
        obtain ⟨x, hx, rfl⟩ := (map_eq_ok _ _ _).mp h
        obtain ⟨rfl, hdenotes⟩ := (Value.ofLiteral_eq_ok before after x).mp hx
        exact ⟨after, rfl, hdenotes⟩
  · intro h
    cases a with
    | var v =>
      obtain ⟨hname, rfl⟩ := h
      have hv : Var.named v.frame v.name.toList = .ok v :=
        (Var.named_eq_ok _ _ _).mpr ⟨rfl, hname, rfl⟩
      simp only [Symbol.parse, Var.toList_text, cutAt_at_frame, FrameName.ofText?_text, hv]
      rfl
    | literal x =>
      obtain ⟨text, rfl, hx⟩ := h
      have hx : Value.ofLiteral x.ty.name.toList text = .ok x :=
        (Value.ofLiteral_eq_ok _ _ _).mpr ⟨rfl, hx⟩
      simp only [Symbol.parse, cutAt_at_type, FrameName.ofText?_type, hx]
      rfl

/-- **What is read is what is denoted**, whatever kind is expected. -/
theorem Kind.parse_eq_ok (k : Kind) (t : List Char) (a : k.Arg) :
    k.parse t = .ok a ↔ (k.operand a).Denotes t := by
  cases k with
  | var => exact Var.parse_eq_ok t a
  | symbol => exact Symbol.parse_eq_ok t a
  | label => exact checkName_eq_ok t a
  | type => exact Ty.parse_eq_ok t a

/-- **An operand is read where it fits from the texts that denote it.** -/
theorem Operand.parse_eq_ok (k : Kind) (t : List Char) (o : Operand) :
    Operand.parse k t = .ok o ↔ o.fits k = true ∧ o.Denotes t := by
  unfold Operand.parse
  rw [map_eq_ok]
  constructor
  · intro h
    obtain ⟨a, ha, rfl⟩ := h
    refine ⟨?_, (k.parse_eq_ok t a).mp ha⟩
    unfold Operand.fits
    rw [k.accept?_operand]
    rfl
  · intro h
    obtain ⟨a, ha⟩ := Option.isSome_iff_exists.mp h.1
    obtain rfl := (k.accept?_eq_some o a).mp ha
    exact ⟨a, (k.parse_eq_ok t a).mpr h.2, rfl⟩

theorem Args.parse_eq_ok (ks : List Kind) (ts : List (List Char)) (h : ts.length = ks.length)
    (as : Args ks) :
    Args.parse ks ts h = .ok as ↔ List.Forall₂ Operand.Denotes ts (Args.operands ks as) := by
  induction ks generalizing ts with
  | nil =>
    cases ts with
    | nil => exact ⟨fun _ => .nil, fun _ => rfl⟩
    | cons t ts => cases h
  | cons k ks ih =>
    obtain ⟨a, as⟩ := as
    cases ts with
    | nil => cases h
    | cons t ts =>
      rw [Args.operands, List.forall₂_cons, ← ih ts (Nat.succ.inj h) as, ← k.parse_eq_ok,
        Args.parse, bind_eq_ok]
      constructor
      · rintro ⟨a', ha, h⟩
        obtain ⟨as', has, h⟩ := (bind_eq_ok _ _ _).mp h
        cases h
        exact ⟨ha, has⟩
      · rintro ⟨ha, has⟩
        exact ⟨a, ha, (bind_eq_ok _ _ _).mpr ⟨as, has, rfl⟩⟩

theorem Instr.parse_eq_ok (op : Opcode) (ts : List (List Char)) (i : Instr) :
    Instr.parse op ts = .ok i ↔ i.opcode = op ∧ List.Forall₂ Operand.Denotes ts i.operands := by
  rw [Instr.parse, map_eq_ok]
  constructor
  · rintro ⟨as, has, rfl⟩
    rw [Opcode.parseArgs] at has
    split at has
    · rw [opcode_ofArgs, operands_ofArgs]
      exact ⟨rfl, (Args.parse_eq_ok _ ts _ as).mp has⟩
    · cases has
  · rintro ⟨rfl, h⟩
    obtain ⟨as, has⟩ := i.exists_ofArgs
    refine ⟨as, ?_, has⟩
    have hops : Args.operands i.opcode.signature as = i.operands := by
      rw [← operands_ofArgs, has]
    rw [← hops] at h
    rw [Opcode.parseArgs, dif_pos (h.length_eq.trans (Args.length_operands _ as))]
    exact (Args.parse_eq_ok _ ts _ as).mpr h

/-! ## operands that can be written -/

def Value.IsWritable : Value → Prop
  | .string s => ∀ c ∈ s.toList, isBlank c = true → c.toNat ≤ 999
  | .type _ => False
  | .int _ | .bool _ | .nil => True

/-- the names are valid, the type is one that READ can produce, and the value is not the name of a
type nor a string with white space that no escape stands for -/
def Operand.IsWritable : Operand → Prop
  | .var v => isName v.name.toList = true
  | .label name => isName name.toList = true
  | .literal x => x.IsWritable
  | .type ty => ty.IsReadable

instance : (x : Value) → Decidable x.IsWritable
  | .string s => List.decidableBAll (fun c => isBlank c = true → c.toNat ≤ 999) s.toList
  | .type _ => inferInstanceAs (Decidable False)
  | .int _ | .bool _ | .nil => inferInstanceAs (Decidable True)

instance : (o : Operand) → Decidable o.IsWritable
  | .var v => inferInstanceAs (Decidable (isName v.name.toList = true))
  | .label name => inferInstanceAs (Decidable (isName name.toList = true))
  | .literal x => inferInstanceAs (Decidable x.IsWritable)
  | .type ty => inferInstanceAs (Decidable ty.IsReadable)

/-- what is written after the `@` of a literal -/
def Value.source : Value → List Char
  | .int n => decimal n.toInt
  | .bool b => (Value.bool b).text.toList
  | .string s => Escape.encode s.toList
  | .nil => Ty.nil.name.toList
  | .type t => t.name.toList

def Operand.source : Operand → List Char
  | .literal x => x.ty.name.toList ++ '@' :: x.source
  | o => o.text.toList

theorem Value.denotes_source (x : Value) (h : x.IsWritable) : x.Denotes x.source := by
  cases x with
  | int n => exact intLiteral?_decimal n
  | bool b => cases b <;> rfl
  | string s => exact Escape.decode?_encode s.toList h
  | nil => rfl
  | type t => cases h

theorem Ty.isPlain_name (t : Ty) : ∀ c ∈ t.name.toList, isPlain c = true := by
  refine List.all_eq_true.mp ?_
  cases t <;> decide

theorem FrameName.isPlain_text (f : FrameName) : ∀ c ∈ f.text.toList, isPlain c = true := by
  refine List.all_eq_true.mp ?_
  cases f <;> decide

theorem Value.isPlain_source (x : Value) : ∀ c ∈ x.source, isPlain c = true := by
  cases x with
  | int n => exact fun c hc => isPlain_of_isNameChar c (isNameChar_of_mem_decimal _ c hc)
  | bool b =>
    refine List.all_eq_true.mp ?_
    cases b <;> decide
  | string s => exact Escape.isPlain_of_mem_encode s.toList
  | nil => exact Ty.nil.isPlain_name
  | type t => exact t.isPlain_name

theorem Value.isWritable_of_denotes (x : Value) (text : List Char)
    (hplain : ∀ c ∈ text, isPlain c = true) (h : x.Denotes text) : x.IsWritable := by
  cases x with
  | string s =>
    intro c hc hb
    refine (Escape.of_mem_decode? text s.toList h c hc).resolve_left fun hmem => ?_
    rw [((isPlain_iff c).mp (hplain c hmem)).1] at hb
    cases hb
  | type t => exact h
  | int n => trivial
  | bool b => trivial
  | nil => trivial

theorem Operand.denotes_source (o : Operand) (h : o.IsWritable) : o.Denotes o.source := by
  cases o with
  | var v => exact ⟨h, rfl⟩
  | label name => exact ⟨h, rfl⟩
  | literal x => exact ⟨x.source, rfl, x.denotes_source h⟩
  | type ty => exact ⟨h, rfl⟩

theorem Ty.isWord_name (t : Ty) : IsWord t.name.toList :=
  ⟨by cases t <;> decide, t.isPlain_name⟩

theorem isWord_append_at (a b : List Char) (ha : ∀ c ∈ a, isPlain c = true)
    (hb : ∀ c ∈ b, isPlain c = true) : IsWord (a ++ '@' :: b) := by
  refine ⟨List.append_ne_nil_of_right_ne_nil a (List.cons_ne_nil '@' b), fun c hc => ?_⟩
  rcases List.mem_append.mp hc with hc | hc
  · exact ha c hc
  · rcases List.mem_cons.mp hc with rfl | hc
    · decide
    · exact hb c hc

theorem Operand.isWord_source (o : Operand) (h : o.IsWritable) : IsWord o.source := by
  cases o with
  | var v =>
    show IsWord v.text.toList
    rw [Var.toList_text]
    exact isWord_append_at _ _ v.frame.isPlain_text (isWord_of_isName v.name.toList h).2
  | label name => exact isWord_of_isName name.toList h
  | literal x => exact isWord_append_at _ _ x.ty.isPlain_name x.isPlain_source
  | type ty => exact ty.isWord_name

theorem Operand.isWritable_of_denotes (o : Operand) (t : List Char) (ht : IsWord t)
    (h : o.Denotes t) : o.IsWritable := by
  cases o with
  | var v => exact h.1
  | label name => exact h.1
  | literal x =>
    obtain ⟨text, rfl, hx⟩ := h
    refine x.isWritable_of_denotes text (fun c hc => ht.2 c ?_) hx
    exact List.mem_append_right _ (List.mem_cons_of_mem _ hc)
  | type ty => exact h.1

/-- **The operands that a word denotes are those that can be written.** -/
theorem Operand.isWritable_iff (o : Operand) : o.IsWritable ↔ ∃ t, IsWord t ∧ o.Denotes t :=
  ⟨fun h => ⟨o.source, o.isWord_source h, o.denotes_source h⟩,
    fun ⟨t, ht, h⟩ => o.isWritable_of_denotes t ht h⟩

/-- a comment sign, a backslash and a line feed can be written, a wide space cannot -/
example : (Operand.literal (.string "#\\\n")).IsWritable ∧
    ¬ (Operand.literal (.string "\u3000")).IsWritable := by decide

end IPPcode24
