import IPPcode24.Proofs.Image

/-!
# The checks of records behind the source

A text can also be assembled with everything checked once more: operands are read by themselves, a
record is accepted from them as from any others, and the program is made of the records as of any
others.  These checks refuse nothing that a text leads to, so that what is assembled without them is
the same.

* `Operand.parseAll ks ts`        the operands of the kinds `ks` that the texts stand for
* `Opcode.record`, `CodeLine.record`, `recordsOfLines`   records, accepted from such operands
* `assembleRecords s`             the program of a text, with the checks
* `Operand.fits_of_parse`         **an operand is read as one of the kind that is expected**
* `recordsOfLines_eq`             the records of the lines are their instructions, numbered
* `Program.ofRecords_number`      **numbered instructions are accepted as a program**
* `Defect.IsTextual d`            what can be wrong with the texts of an instruction
* `Kind.parse_fails`, `assemble_fails`   **nothing else is ever wrong**

Main statement, `checks_pass`.
-/

namespace IPPcode24

/-! ## a second way from a text to a program -/

def Operand.parseAll : List Kind → List (List Char) → Except Defect (List Operand)
  | k :: ks, t :: ts => do
    let o ← Operand.parse k t
    let os ← Operand.parseAll ks ts
    pure (o :: os)
  | _, _ => pure []

def Opcode.record (op : Opcode) (order : Nat) (ts : List (List Char)) : Except Defect Record :=
  if ts.length = op.signature.length then do
    let os ← Operand.parseAll op.signature ts
    let i ← Instr.ofOperands op os
    pure ⟨order, i⟩
  else .error (.operandCount op ts.length)

def CodeLine.record (order : Nat) (l : CodeLine) : Except SourceError Record :=
  match Opcode.parse l.word with
  | .error _ => .error (.unknownOpcode l.number (String.ofList l.word))
  | .ok op => (op.record order l.rest).mapError (.defect l.number)

/-- the records of the lines, the first of which has the given order number -/
def recordsOfLines (order : Nat) : List CodeLine → Except SourceError (List Record)
  | [] => pure []
  | l :: ls => do
    let r ← l.record order
    let rs ← recordsOfLines (order + 1) ls
    pure (r :: rs)

inductive AssemblyError where
  | source (e : SourceError)
  /-- the records of the text make no program -/
  | program (d : Defect)
deriving DecidableEq, Repr

def assembleRecords (s : List Char) : Except AssemblyError Program :=
  match codeLines s with
  | [] => .error (.source .missingHeader)
  | l :: ls =>
    if l.opensProgram then do
      let rs ← (recordsOfLines 1 ls).mapError .source
      (Program.ofRecords rs).mapError .program
    else .error (.source (.invalidHeader l.number (String.ofList (unwords (l.word :: l.rest)))))

/-! ## operands -/

/-- **An operand is read as one of the kind that is expected.** -/
theorem Operand.fits_of_parse (k : Kind) (t : List Char) (o : Operand)
    (h : Operand.parse k t = .ok o) : o.fits k = true := by
  exact ((Operand.parse_eq_ok k t o).mp h).1

/-- operands are read as those of the arguments, or fail as these do -/
theorem Operand.parseAll_eq (ks : List Kind) : ∀ (ts : List (List Char)) (h : ts.length = ks.length),
    Operand.parseAll ks ts = (Args.parse ks ts h).map (Args.operands ks) := by
  induction ks with
  | nil =>
    intro ts h
    cases ts with
    | nil => rfl
    | cons t ts => cases h
  | cons k ks ih =>
    intro ts h
    cases ts with
    | nil => cases h
    | cons t ts =>
      rw [Operand.parseAll, Args.parse, ih ts (Nat.succ.inj h), Operand.parse]
      cases k.parse t with
      | error d => rfl
      | ok a => cases Args.parse ks ts (Nat.succ.inj h) <;> rfl

/-! ## records -/

theorem Opcode.record_eq (op : Opcode) (order : Nat) (ts : List (List Char)) :
    op.record order ts = (Instr.parse op ts).map fun i => ⟨order, i⟩ := by
  rw [Opcode.record, Instr.parse, Opcode.parseArgs]
  by_cases h : ts.length = op.signature.length
  · rw [if_pos h, dif_pos h, Operand.parseAll_eq _ ts h]
    cases Args.parse op.signature ts h with
    | error d => rfl
    | ok as =>
      show (Instr.ofOperands op (Args.operands op.signature as)).bind
        (fun i => .ok (⟨order, i⟩ : Record)) = _
      rw [Instr.ofOperands_operands]
      rfl
  · rw [if_neg h, dif_neg h]
    rfl

theorem CodeLine.record_eq (order : Nat) (l : CodeLine) :
    l.record order = l.instr.map fun i => ⟨order, i⟩ := by
  rw [CodeLine.record, CodeLine.instr, Opcode.parse]
  cases Opcode.ofMnemonic? l.word with
  | none => rfl
  | some op =>
    dsimp only
    rw [Opcode.record_eq]
    cases Instr.parse op l.rest <;> rfl

/-- the records of the lines are their instructions, numbered -/
theorem recordsOfLines_eq (ls : List CodeLine) : ∀ order,
    recordsOfLines order ls = (instrsOfLines ls).map (Program.number order) := by
  induction ls with
  | nil => exact fun _ => rfl
  | cons l ls ih =>
    intro order
    rw [recordsOfLines, instrsOfLines, CodeLine.record_eq, ih (order + 1)]
    cases l.instr with
    | error e => rfl
    | ok i => cases instrsOfLines ls <;> rfl

/-- **Numbered instructions are accepted as a program**, from whatever number on. -/
theorem Program.exists_ofRecords_number (n : Nat) (is : List Instr) :
    ∃ p, ofRecords (number n is) = .ok p ∧ p.records.toList = number n is := by
  have hincreasing := increasing_number is n
  refine ⟨⟨(number n is).toArray, hincreasing⟩, (ofRecords_eq_ok _ _).mpr ?_, rfl⟩
  exact (sorted_of_increasing _ hincreasing).symm

theorem Program.ofRecords_number (is : List Instr) : ofRecords (number 1 is) = .ok (ofInstrs is) := by
  obtain ⟨p, hp, hrecords⟩ := exists_ofRecords_number 1 is
  rw [hp, eq_of_toList p (ofInstrs is) hrecords]

/-- what is assembled with the checks is what is assembled without them -/
theorem assembleRecords_eq (s : List Char) :
    assembleRecords s = (assemble s).mapError .source := by
  rw [assembleRecords, assemble]
  cases codeLines s with
  | nil => rfl
  | cons l ls =>
    dsimp only
    split
    · rw [recordsOfLines_eq]
      cases instrsOfLines ls with
      | error e => rfl
      | ok is =>
        show (Program.ofRecords (Program.number 1 is)).mapError AssemblyError.program = _
        rw [Program.ofRecords_number]
        rfl
    · rfl

/-! ## what can be wrong -/

/-- the number of operands is wrong, or the text of one of them -/
def Defect.IsTextual : Defect → Prop
  | .operandCount _ _ | .invalidFrame _ | .invalidIdentifier _ | .unknownLiteralType _
  | .invalidTypeName _ | .invalidLiteral _ _ | .invalidEscape _ => True
  | .unknownOpcode _ | .operandKind _ _ _ | .duplicateOrder _ => False

def SourceError.IsTextual : SourceError → Prop
  | .missingHeader | .invalidHeader _ _ | .unknownOpcode _ _ => True
  | .defect _ d => d.IsTextual

theorem checkName_fails (s : List Char) : FailsWith Defect.IsTextual (checkName s) := by
  rw [checkName]
  split
  · exact .ok
  · exact .error trivial

theorem FrameName.parse_fails (s : List Char) : FailsWith Defect.IsTextual (FrameName.parse s) := by
  rw [FrameName.parse]
  cases FrameName.ofText? s with
  | some f => exact .ok
  | none => exact .error trivial

theorem Var.named_fails (f : FrameName) (s : List Char) :
    FailsWith Defect.IsTextual (Var.named f s) := (checkName_fails s).map

theorem Var.parse_fails (s : List Char) : FailsWith Defect.IsTextual (Var.parse s) := by
  rw [Var.parse]
  cases cutAt '@' s with
  | none => exact .error trivial
  | some ab => exact (FrameName.parse_fails ab.1).bind fun f _ => Var.named_fails f ab.2

theorem Ty.isTextual_refusal (text : List Char) (t : Ty) : (t.refusal text).IsTextual := by
  cases t <;> trivial

theorem Value.ofLiteral_fails (ty text : List Char) :
    FailsWith Defect.IsTextual (Value.ofLiteral ty text) := by
  cases hty : Ty.ofName? ty with
  | none =>
    rw [Value.ofLiteral, hty]
    exact .error trivial
  | some t =>
    rw [(Ty.ofName?_eq_some ty t).mp hty, Value.ofLiteral_name]
    cases t.read? text with
    | none => exact .error (t.isTextual_refusal text)
    | some x => exact .ok

theorem Symbol.parse_fails (s : List Char) : FailsWith Defect.IsTextual (Symbol.parse s) := by
  rw [Symbol.parse]
  cases cutAt '@' s with
  | none => exact .error trivial
  | some ab =>
    dsimp only
    cases FrameName.ofText? ab.1 with
    | some f => exact (Var.named_fails f ab.2).map
    | none => exact (Value.ofLiteral_fails ab.1 ab.2).map

theorem Ty.parse_fails (s : List Char) : FailsWith Defect.IsTextual (Ty.parse s) := by
  rw [Ty.parse]
  cases Ty.ofName? s with
  | none => exact .error trivial
  | some t =>
    cases t with
    | int | bool | string => exact .ok
    | nil | type => exact .error trivial

theorem Kind.parse_fails (k : Kind) (s : List Char) : FailsWith Defect.IsTextual (k.parse s) := by
  cases k with
  | var => exact Var.parse_fails s
  | symbol => exact Symbol.parse_fails s
  | label => exact checkName_fails s
  | type => exact Ty.parse_fails s

theorem Args.parse_fails (ks : List Kind) : ∀ (ts : List (List Char)) (h : ts.length = ks.length),
    FailsWith Defect.IsTextual (Args.parse ks ts h) := by
  induction ks with
  | nil =>
    intro ts h
    cases ts with
    | nil => exact .ok
    | cons t ts => cases h
  | cons k ks ih =>
    intro ts h
    cases ts with
    | nil => cases h
    | cons t ts =>
      exact (k.parse_fails t).bind fun a _ => (ih ts (Nat.succ.inj h)).bind fun as _ => .ok

theorem Instr.parse_fails (op : Opcode) (ts : List (List Char)) :
    FailsWith Defect.IsTextual (Instr.parse op ts) := by
  rw [Instr.parse, Opcode.parseArgs]
  split
  · next h => exact (Args.parse_fails op.signature ts h).map
  · exact FailsWith.map (.error trivial)

theorem CodeLine.instr_fails (l : CodeLine) : FailsWith SourceError.IsTextual l.instr := by
  rw [CodeLine.instr]
  cases Opcode.ofMnemonic? l.word with
  | none => exact .error trivial
  | some op =>
    dsimp only
    cases h : Instr.parse op l.rest with
    | error d => exact .error (Instr.parse_fails op l.rest d h)
    | ok i => exact .ok

theorem instrsOfLines_fails (ls : List CodeLine) :
    FailsWith SourceError.IsTextual (instrsOfLines ls) := by
  induction ls with
  | nil => exact .ok
  | cons l ls ih =>
    rw [instrsOfLines]
    cases h : l.instr with
    | error e => exact .error (l.instr_fails e h)
    | ok i => exact ih.map

theorem assemble_fails (s : List Char) : FailsWith SourceError.IsTextual (assemble s) := by
  rw [assemble]
  cases codeLines s with
  | nil => exact .error trivial
  | cons l ls =>
    dsimp only
    split
    · exact (instrsOfLines_fails ls).map
    · exact .error trivial

/-! ## the main statement -/

/-- **The checks of records refuse nothing that was read from a text.**  What is read as an operand
of a kind fits that kind.  So operands that were read by the signature of an opcode are accepted for
it, and the records of the lines, numbered one after the other, are accepted as a program, with
nothing moved.  A text is assembled to the same with the checks and without; if it is refused, then
for its header, for a word that is no opcode, or on a line for the number of operands or the text of
one of them, and never for what the checks look for. -/
theorem checks_pass :
    (∀ k t o, Operand.parse k t = .ok o → o.fits k = true) ∧
    (∀ op ts os, ts.length = op.signature.length → Operand.parseAll op.signature ts = .ok os →
      ∃ i, Instr.ofOperands op os = .ok i) ∧
    (∀ order ls rs, recordsOfLines order ls = .ok rs →
      ∃ p, Program.ofRecords rs = .ok p ∧ p.records.toList = rs) ∧
    ∀ s, assembleRecords s = (assemble s).mapError .source ∧
      (∀ e, assemble s = .error e → e.IsTextual) ∧
      ∀ e, assembleRecords s = .error e → ∃ e', e = .source e' ∧ e'.IsTextual := by
  refine ⟨Operand.fits_of_parse, fun op ts os hlen h => ?_, fun order ls rs h => ?_, fun s =>
    ⟨assembleRecords_eq s, assemble_fails s, fun e h => ?_⟩⟩
  · rw [Operand.parseAll_eq _ ts hlen] at h
    obtain ⟨as, _, rfl⟩ := (map_eq_ok _ _ _).mp h
    exact ⟨_, Instr.ofOperands_operands op as⟩
  · rw [recordsOfLines_eq] at h
    obtain ⟨is, _, rfl⟩ := (map_eq_ok _ _ _).mp h
    exact Program.exists_ofRecords_number order is
  · rw [assembleRecords_eq] at h
    cases hs : assemble s with
    | ok p =>
      rw [hs] at h
      cases h
    | error e' =>
      rw [hs] at h
      cases h
      exact ⟨e', rfl, assemble_fails s e' hs⟩

/-- a literal with an escape in its line, and the line when the escape is too short -/
theorem checks_pass_escape :
    let o := Operand.literal (.string "#")
    let write := Record.mk 1 (.print .stdout (.literal (.string "#")))
    let short := ".IPPcode24\nWRITE string@\\35".toList
    Operand.parse .symbol "string@\\035".toList = .ok o ∧ o.fits .symbol = true ∧
      (∃ i, Instr.ofOperands .write [o] = .ok i) ∧
      recordsOfLines 1 [⟨2, "WRITE".toList, ["string@\\035".toList]⟩] = .ok [write] ∧
      (∃ p, Program.ofRecords [write] = .ok p ∧ p.records.toList = [write]) ∧
      assembleRecords short = .error (.source (.defect 2 (.invalidEscape "\\35"))) ∧
      SourceError.IsTextual (.defect 2 (.invalidEscape "\\35")) := by
  intro o write short
  obtain ⟨hfits, haccepted, hrecords, htexts⟩ := checks_pass
  have hparse : Operand.parse .symbol "string@\\035".toList = .ok o := by rfl
  have hlines : recordsOfLines 1 [⟨2, "WRITE".toList, ["string@\\035".toList]⟩] = .ok [write] := by
    rfl
  have hshort : assemble short = .error (.defect 2 (.invalidEscape "\\35")) := by rfl
  obtain ⟨hsame, htextual, _⟩ := htexts short
  refine ⟨hparse, hfits _ _ _ hparse, ?_, hlines, hrecords _ _ _ hlines, ?_, htextual _ hshort⟩
  · exact haccepted .write ["string@\\035".toList] [o] rfl rfl
  · rw [hsame, hshort]
    rfl

end IPPcode24
