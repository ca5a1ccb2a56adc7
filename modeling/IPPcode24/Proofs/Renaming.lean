import IPPcode24.Proofs.Control
import Mathlib.Data.Set.Function

/-!
# Other names

A renaming gives other names to variables and, apart from that, to labels.  A variable has one new
name in all frames.

* `Renaming`, `Renaming.same`   names for variables and for labels, and those that change nothing
* `Instr.rename`, `Program.rename`, `Fault.rename`   what has the new names
* `Instr.operands_rename`       **an instruction is renamed operand by operand**
* `Program.variableNames`, `Program.labelNames`      the names in a program
* `Machine.exists_load_rename`  a program with other names can be loaded if it could before
-/

namespace IPPcode24

structure Renaming where
  var : String → String
  label : String → String

/-- every name stays -/
def Renaming.same : Renaming := ⟨id, id⟩

/-! ## in programs -/

section
variable (ρ : Renaming)

def Var.rename (v : Var) : Var := { v with name := ρ.var v.name }

def Symbol.rename : Symbol → Symbol
  | .var v => .var (v.rename ρ)
  | .literal x => .literal x

def Operand.rename : Operand → Operand
  | .var v => .var (v.rename ρ)
  | .label name => .label (ρ.label name)
  | .literal x => .literal x
  | .type t => .type t

def Instr.rename : Instr → Instr
  | .createFrame => .createFrame
  | .pushFrame => .pushFrame
  | .popFrame => .popFrame
  | .defVar v => .defVar (v.rename ρ)
  | .call name => .call (ρ.label name)
  | .ret => .ret
  | .pushs a => .pushs (a.rename ρ)
  | .pops dst => .pops (dst.rename ρ)
  | .unary f dst a => .unary f (dst.rename ρ) (a.rename ρ)
  | .binary f dst a b => .binary f (dst.rename ρ) (a.rename ρ) (b.rename ρ)
  | .setChar dst a b => .setChar (dst.rename ρ) (a.rename ρ) (b.rename ρ)
  | .type dst a => .type (dst.rename ρ) (a.rename ρ)
  | .read dst t => .read (dst.rename ρ) t
  | .print channel a => .print channel (a.rename ρ)
  | .label name => .label (ρ.label name)
  | .jump name => .jump (ρ.label name)
  | .jumpIf verdict name a b => .jumpIf verdict (ρ.label name) (a.rename ρ) (b.rename ρ)
  | .exit a => .exit (a.rename ρ)
  | .brk => .brk

def Record.rename (r : Record) : Record := { r with instr := r.instr.rename ρ }

theorem Symbol.operand_rename (a : Symbol) : (a.rename ρ).operand = a.operand.rename ρ := by
  cases a <;> rfl

theorem Instr.opcode_rename (i : Instr) : (i.rename ρ).opcode = i.opcode := by
  cases i with
  | print channel a => cases channel <;> rfl
  | jumpIf verdict name a b => cases verdict <;> rfl
  | _ => rfl

/-- **An instruction is renamed operand by operand.** -/
theorem Instr.operands_rename (i : Instr) :
    (i.rename ρ).operands = i.operands.map (Operand.rename ρ) := by
  cases i <;> simp [rename, operands, Operand.rename, Symbol.operand_rename]

theorem Instr.label?_rename (i : Instr) : (i.rename ρ).label? = i.label?.map ρ.label := by
  cases i <;> rfl

def Program.rename (p : Program) : Program where
  records := p.records.map (Record.rename ρ)
  increasing := by
    rw [Array.toList_map, List.pairwise_map]
    exact p.increasing

theorem Program.get?_rename (p : Program) (i : Nat) :
    (p.rename ρ).get? i = (p.get? i).map (Record.rename ρ) := Array.getElem?_map

theorem Program.instrs_rename (p : Program) :
    (p.rename ρ).instrs = p.instrs.map (Instr.rename ρ) := by
  rw [instrs, instrs, rename, Array.toList_map, List.map_map, List.map_map]
  rfl

/-! ## in faults -/

def AccessError.rename : AccessError → AccessError
  | .missingFrame f => .missingFrame f
  | .undeclared v => .undeclared (v.rename ρ)
  | .uninitialized v => .uninitialized (v.rename ρ)
  | .redefined v => .redefined (v.rename ρ)

def Cause.rename : Cause → Cause
  | .duplicateLabel name => .duplicateLabel (ρ.label name)
  | .undefinedLabel name => .undefinedLabel (ρ.label name)
  | .access e => .access (e.rename ρ)
  | c => c

def Fault.rename (f : Fault) : Fault := { f with cause := f.cause.rename ρ }

theorem Cause.OfValues.rename_eq (c : Cause) (h : c.OfValues) : c.rename ρ = c := by
  cases c <;> first | rfl | cases h

end

/-! ## nothing renamed -/

theorem Var.rename_same (v : Var) : v.rename .same = v := rfl

theorem Symbol.rename_same (a : Symbol) : a.rename .same = a := by
  cases a <;> rfl

theorem Instr.rename_same (i : Instr) : i.rename .same = i := by
  have hlabel : ∀ name, Renaming.same.label name = name := fun _ => rfl
  cases i <;> simp [rename, Var.rename_same, Symbol.rename_same, hlabel]

theorem Cause.rename_same (c : Cause) : c.rename .same = c := by
  cases c with
  | access e => cases e <;> rfl
  | _ => rfl

/-! ## the names in a program -/

namespace Program

/-- the names of the variables, of whichever frame -/
def variableNames (p : Program) : Set String :=
  {name | ∃ i ∈ p.instrs, ∃ f, Operand.var ⟨f, name⟩ ∈ i.operands}

/-- the labels that are defined or gone to -/
def labelNames (p : Program) : Set String :=
  {name | ∃ i ∈ p.instrs, Operand.label name ∈ i.operands}

theorem mem_labelNames_of_label? (p : Program) (name : String)
    (h : name ∈ p.instrs.filterMap Instr.label?) : name ∈ p.labelNames := by
  obtain ⟨i, hi, hname⟩ := List.mem_filterMap.mp h
  rw [Instr.label?_eq_some] at hname
  exact ⟨i, hi, hname ▸ List.mem_cons_self⟩

end Program

/-- a program with other names can be loaded if it could before -/
theorem Machine.exists_load_rename (m : Machine) (ρ : Renaming)
    (hl : Set.InjOn ρ.label m.program.labelNames) :
    ∃ m', load (m.program.rename ρ) = .ok m' := by
  rw [exists_load_iff, Program.instrs_rename, List.filterMap_map]
  have hlabels : Instr.label? ∘ Instr.rename ρ = fun i => i.label?.map ρ.label :=
    funext (Instr.label?_rename ρ)
  rw [hlabels, ← List.map_filterMap]
  exact m.nodup_labels.map_on fun a ha b hb hab =>
    hl (m.program.mem_labelNames_of_label? a ha) (m.program.mem_labelNames_of_label? b hb) hab

end IPPcode24
