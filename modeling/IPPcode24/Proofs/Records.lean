import Mathlib.Data.List.Forall2
import IPPcode24.Proofs.Steps

/-!
# Records that were accepted are never malformed

The signature of an opcode says what operands a record may have, and a routine looks for operands at
positions and of kinds of its own.  Main statement, `Machine.accepted_record_sound`: the two agree,
so that a routine on operands that were accepted, and with it every step, fails for other reasons.

* `Instr.ofOperands_eq_ok`        an instruction is accepted from its own opcode and operands only
* `Instr.exists_ofOperands_iff`   operands are accepted if they are as the signature says
* `Cause.IsSound c`               the cause is not about the shape of the program
* `position_eq_ok`                an index that was checked stands for a position in the string
-/

namespace IPPcode24

/-! ## operands and their kinds -/

namespace Args

theorem ofOperands_cons (op : Opcode) (p : Nat) (k : Kind) (ks : List Kind) (o : Operand)
    (os : List Operand) (h : (o :: os).length = (k :: ks).length) :
    ofOperands op p (k :: ks) (o :: os) h = match k.accept? o with
      | none => .error (.operandKind (some op) p k)
      | some a => (ofOperands op (p + 1) ks os (Nat.succ.inj h)).map fun as => (a, as) := rfl

/-- arguments are accepted from their own operands, and from no others -/
theorem ofOperands_eq_ok (op : Opcode) (ks : List Kind) : ∀ (p : Nat) (os : List Operand)
    (h : os.length = ks.length) (as : Args ks),
    ofOperands op p ks os h = .ok as ↔ operands ks as = os := by
  induction ks with
  | nil =>
    intro p os h as
    cases os with
    | nil => exact ⟨fun _ => rfl, fun _ => rfl⟩
    | cons o os => cases h
  | cons k ks ih =>
    rintro p os h ⟨a, as⟩
    cases os with
    | nil => cases h
    | cons o os =>
      rw [ofOperands_cons, operands, List.cons.injEq, ← ih (p + 1) os (Nat.succ.inj h) as,
        eq_comm (a := k.operand a), ← k.accept?_eq_some o a]
      cases k.accept? o with
      | none => exact ⟨fun hok => (nomatch hok), fun hok => (nomatch hok.1)⟩
      | some b =>
        cases ofOperands op (p + 1) ks os (Nat.succ.inj h) with
        | error d => exact ⟨fun hok => (nomatch hok), fun hok => (nomatch hok.2)⟩
        | ok bs =>
          constructor
          · intro hok
            cases hok
            exact ⟨rfl, rfl⟩
          · rintro ⟨ha, has⟩
            cases ha
            cases has
            rfl

theorem length_operands (ks : List Kind) : ∀ as : Args ks, (operands ks as).length = ks.length := by
  induction ks with
  | nil => intro as; rfl
  | cons k ks ih =>
    rintro ⟨a, as⟩
    rw [operands, List.length_cons, ih, List.length_cons]

theorem forall₂_fits_operands (ks : List Kind) :
    ∀ as : Args ks, List.Forall₂ (fun o k => o.fits k = true) (operands ks as) ks := by
  induction ks with
  | nil => intro as; exact .nil
  | cons k ks ih =>
    rintro ⟨a, as⟩
    refine .cons ?_ (ih as)
    rw [Operand.fits, k.accept?_operand]
    rfl

/-- operands that fit the kinds are those of some arguments -/
theorem exists_operands (os : List Operand) (ks : List Kind)
    (h : List.Forall₂ (fun o k => o.fits k = true) os ks) : ∃ as : Args ks, operands ks as = os := by
  induction h with
  | nil => exact ⟨(), rfl⟩
  | @cons o k os ks hok _ ih =>
    obtain ⟨as, has⟩ := ih
    obtain ⟨a, ha⟩ := Option.isSome_iff_exists.mp hok
    exact ⟨(a, as), by rw [operands, has, ← (k.accept?_eq_some o a).mp ha]⟩

end Args

/-! ## records that are accepted -/

namespace Instr

/-- every instruction is that of its opcode and some arguments -/
theorem exists_ofArgs (i : Instr) : ∃ as : Args i.opcode.signature, ofArgs i.opcode as = i := by
  cases i with
  | createFrame | pushFrame | popFrame | ret | brk => exact ⟨(), rfl⟩
  | defVar v | pops v => exact ⟨(v, ()), rfl⟩
  | call name | label name | jump name => exact ⟨(name, ()), rfl⟩
  | pushs a | exit a => exact ⟨(a, ()), rfl⟩
  | print channel a => cases channel <;> exact ⟨(a, ()), rfl⟩
  | unary f dst a => cases f <;> exact ⟨(dst, a, ()), rfl⟩
  | type dst a => exact ⟨(dst, a, ()), rfl⟩
  | binary f dst a b => cases f <;> exact ⟨(dst, a, b, ()), rfl⟩
  | setChar dst a b => exact ⟨(dst, a, b, ()), rfl⟩
  | read dst ty => exact ⟨(dst, ty, ()), rfl⟩
  | jumpIf verdict name a b => cases verdict <;> exact ⟨(name, a, b, ()), rfl⟩

theorem args_operands (op : Opcode) (as : Args op.signature) :
    op.args (Args.operands op.signature as) = .ok as := by
  rw [Opcode.args, dif_pos (Args.length_operands _ as)]
  exact (Args.ofOperands_eq_ok _ _ _ _ _ _).mpr rfl

theorem ofOperands_operands (op : Opcode) (as : Args op.signature) :
    ofOperands op (Args.operands op.signature as) = .ok (ofArgs op as) := by
  rw [ofOperands, args_operands]
  rfl

/-- **An instruction is accepted from its own opcode and operands, and from no others.** -/
theorem ofOperands_eq_ok (op : Opcode) (os : List Operand) (i : Instr) :
    ofOperands op os = .ok i ↔ i.opcode = op ∧ i.operands = os := by
  constructor
  · intro h
    rw [ofOperands] at h
    cases ha : op.args os with
    | error d => rw [ha] at h; cases h
    | ok as =>
      rw [ha] at h
      cases h
      refine ⟨opcode_ofArgs op as, ?_⟩
      rw [Opcode.args] at ha
      split at ha
      · rw [operands_ofArgs, (Args.ofOperands_eq_ok _ _ _ _ _ _).mp ha]
      · cases ha
  · rintro ⟨rfl, rfl⟩
    obtain ⟨as, has⟩ := i.exists_ofArgs
    have h := ofOperands_operands i.opcode as
    rwa [← operands_ofArgs, has] at h

/-- **Operands are accepted if there are as many as the signature has, each of its kind.** -/
theorem exists_ofOperands_iff (op : Opcode) (os : List Operand) :
    (∃ i, ofOperands op os = .ok i) ↔
      List.Forall₂ (fun o k => o.fits k = true) os op.signature := by
  constructor
  · rintro ⟨i, hi⟩
    obtain ⟨rfl, rfl⟩ := (ofOperands_eq_ok op os i).mp hi
    obtain ⟨as, has⟩ := i.exists_ofArgs
    have h := Args.forall₂_fits_operands _ as
    rwa [← operands_ofArgs, has] at h
  · intro h
    obtain ⟨as, rfl⟩ := Args.exists_operands os op.signature h
    exact ⟨ofArgs op as, ofOperands_operands op as⟩

end Instr

/-! ## causes that are not about the shape of the program -/

def Cause.IsSound : Cause → Prop
  | .malformed _ | .duplicateLabel _ | .access (.missingFrame .gf) => False
  | _ => True

theorem Cause.Possible.isSound (t : Labels) (c : Cause) (h : c.Possible t) : c.IsSound := by
  cases c with
  | malformed d => exact h
  | duplicateLabel name => exact h
  | access e =>
    cases e with
    | missingFrame f =>
      cases f with
      | gf => exact absurd rfl h
      | lf => trivial
      | tf => trivial
    | undeclared v => trivial
    | uninitialized v => trivial
    | redefined v => trivial
  | _ => trivial

/-- what the routine of an instruction fails with -/
theorem Routine.ofOpcode_error (t : Labels) (order : Nat) (i : Instr) (s s' : State) (c : Cause)
    (h : ofOpcode t order i.opcode i.operands s = .error c s') : c.IsSound := by
  rw [ofOpcode_eq_finish] at h
  cases he : i.effect t s order with
  | error c' =>
    rw [he] at h
    cases h
    exact (i.effect_fails t s order c he).isSound
  | ok e =>
    rw [he, State.finish] at h
    cases ho : s.hasRoom e.output with
    | true => rw [ho] at h; cases h
    | false => rw [ho] at h; cases h; trivial

/-! ## positions in strings -/

theorem position_eq_ok (i : Int64) (length k : Nat) :
    position i length = .ok k ↔ 0 ≤ i.toInt ∧ k = i.toInt.toNat ∧ k < length := by
  rw [position]
  split
  · next h =>
    constructor
    · intro hk
      cases hk
      exact ⟨h.1, rfl, h.2⟩
    · rintro ⟨_, rfl, _⟩
      rfl
  · next h =>
    constructor
    · intro hk
      cases hk
    · rintro ⟨h0, rfl, hlt⟩
      exact absurd ⟨h0, hlt⟩ h

theorem lt_length_of_position (s : String) (i : Int64) (k : Nat)
    (h : position i s.length = .ok k) : k < s.toList.length := by
  rw [String.length_toList]
  exact ((position_eq_ok _ _ _).mp h).2.2

/-- the second check of a character's index never fails -/
theorem charAt_error (s : String) (i : Int64) (c : Cause) (h : charAt s i = .error c) :
    position i s.length = .error c := by
  rw [charAt] at h
  cases hp : position i s.length with
  | error c' =>
    rw [hp] at h
    cases h
    rfl
  | ok k =>
    rw [hp] at h
    have hlt := lt_length_of_position s i k hp
    have hk : s.toList[k]? = some s.toList[k] := List.getElem?_eq_getElem hlt
    simp only [bind, Except.bind, hk] at h
    cases h

theorem setChar_eq_ok (x y z w : Value) (h : setChar x y z = .ok w) :
    ∃ s i r k c, x = .string s ∧ y = .int i ∧ z = .string r ∧ position i s.length = .ok k ∧
      k < s.toList.length ∧ replacement r = .ok c ∧
      w = .string (String.ofList (s.toList.set k c)) := by
  unfold setChar at h
  split at h
  · next s i r =>
    obtain ⟨k, hk, h⟩ := (bind_eq_ok _ _ _).mp h
    obtain ⟨c, hc, h⟩ := (bind_eq_ok _ _ _).mp h
    cases h
    exact ⟨s, i, r, k, c, rfl, rfl, rfl, hk, lt_length_of_position s i k hk, hc, rfl⟩
  · cases h

/-! ## steps -/

theorem Machine.isSound_of_fault (m : Machine) (s : State) (f : Fault)
    (h : (m.step s).fault = some f) : f.cause.IsSound := by
  rcases m.cause_of_fault s f h with hc | hc
  · rw [hc]
    trivial
  · exact hc.isSound

/-- **Records that were accepted are never malformed.**  Operands are accepted if they are as the
signature says; the instruction has them as they were; a routine on them finds all that it looks
for, in every state; and so does every step of every machine.  Indices that were checked are in
bounds: the second check of a character never fails, and SETCHAR replaces a character that is there. -/
theorem Machine.accepted_record_sound :
    (∀ op os, (∃ i, Instr.ofOperands op os = .ok i) ↔
      List.Forall₂ (fun o k => o.fits k = true) os op.signature) ∧
    (∀ op os i, Instr.ofOperands op os = .ok i → i.opcode = op ∧ i.operands = os ∧
      ∀ t order s s' c, Routine.ofOpcode t order op os s = .error c s' → c.IsSound) ∧
    (∀ (m : Machine) s f, (m.step s).fault = some f → f.cause.IsSound) ∧
    (∀ s i c, charAt s i = .error c → position i s.length = .error c) ∧
    (∀ x y z w, IPPcode24.setChar x y z = .ok w → ∃ s i r k c, x = .string s ∧ y = .int i ∧
      z = .string r ∧ position i s.length = .ok k ∧ k < s.toList.length ∧ replacement r = .ok c ∧
      w = .string (String.ofList (s.toList.set k c))) := by
  refine ⟨Instr.exists_ofOperands_iff, fun op os i hi => ?_, isSound_of_fault, charAt_error,
    setChar_eq_ok⟩
  obtain ⟨rfl, rfl⟩ := (Instr.ofOperands_eq_ok op os i).mp hi
  exact ⟨rfl, rfl, fun t order s s' c h => Routine.ofOpcode_error t order i s s' c h⟩

/-- READ of the type nil into a variable whose name is none -/
theorem Machine.accepted_record_sound_read :
    ∃ i s', Instr.ofOperands .read [.var ⟨.gf, "a b"⟩, .type .nil] = .ok i ∧
      Routine.ofOpcode ⟨[]⟩ 1 .read [.var ⟨.gf, "a b"⟩, .type .nil]
        (State.start [] (Sink.new none) (Sink.new none))
        = .error (.access (.undeclared ⟨.gf, "a b"⟩)) s' ∧
      i.operands = [.var ⟨.gf, "a b"⟩, .type .nil] ∧
      (Cause.access (.undeclared ⟨.gf, "a b"⟩)).IsSound := by
  have hi : Instr.ofOperands .read [.var ⟨.gf, "a b"⟩, .type .nil]
      = .ok (.read ⟨.gf, "a b"⟩ .nil) := rfl
  have hr : Routine.ofOpcode ⟨[]⟩ 1 .read [.var ⟨.gf, "a b"⟩, .type .nil]
      (State.start [] (Sink.new none) (Sink.new none))
      = .error (.access (.undeclared ⟨.gf, "a b"⟩)) (State.start [] (Sink.new none) (Sink.new none)) :=
    rfl
  obtain ⟨_, hos, hsound⟩ := accepted_record_sound.2.1 _ _ _ hi
  exact ⟨_, _, hi, hr, hos, hsound _ _ _ _ _ hr⟩

end IPPcode24
