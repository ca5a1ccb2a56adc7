import IPPcode24.Instr

/-!
# Programs

* `Record`               an instruction with its order number
* `Program`              records with increasing order numbers; the index of a record is what the
                         machine counts in
* `Program.ofRecords`    the records in increasing order; a number that occurs twice is a defect
* `Program.ofInstrs`     the instructions numbered from one
* `Program.instrs`, `Program.size`, `Program.get?`   the instructions, their number, and one of them
-/

namespace IPPcode24

structure Record where
  order : Nat
  instr : Instr
deriving DecidableEq, Repr

structure Program where
  records : Array Record
  increasing : records.toList.Pairwise fun a b => a.order < b.order
deriving DecidableEq

namespace Program

def instrs (p : Program) : List Instr := p.records.toList.map Record.instr

def size (p : Program) : Nat := p.records.size

def get? (p : Program) (i : Nat) : Option Record := p.records[i]?

/-! ## from records -/

/-- the first order number that two neighbours share -/
def firstRepeat : List Record → Option Nat
  | a :: b :: rs => if a.order = b.order then some a.order else firstRepeat (b :: rs)
  | _ => none

theorem increasing_of_firstRepeat (rs : List Record)
    (hs : rs.Pairwise fun a b => a.order ≤ b.order) (h : firstRepeat rs = none) :
    rs.Pairwise fun a b => a.order < b.order := by
  induction rs with
  | nil => exact .nil
  | cons a rs ih =>
    cases rs with
    | nil => exact List.pairwise_singleton _ _
    | cons b rs =>
      rw [firstRepeat] at h
      split at h
      · cases h
      · next hab =>
        rw [List.pairwise_cons] at hs
        have hbs := ih hs.2 h
        refine List.pairwise_cons.mpr ⟨fun c hc => ?_, hbs⟩
        have hab' : a.order < b.order :=
          Nat.lt_of_le_of_ne (hs.1 b List.mem_cons_self) hab
        rcases List.mem_cons.mp hc with rfl | hc
        · exact hab'
        · exact Nat.lt_trans hab' ((List.pairwise_cons.mp hbs).1 c hc)

/-- the records in increasing order, those with one number in the order they came -/
def sorted (rs : List Record) : List Record := rs.mergeSort fun a b => decide (a.order ≤ b.order)

theorem pairwise_sorted (rs : List Record) :
    (sorted rs).Pairwise fun a b => a.order ≤ b.order := by
  have h := @List.pairwise_mergeSort Record (fun a b => decide (a.order ≤ b.order))
    (fun a b c => by simpa using Nat.le_trans) (fun a b => by simpa using Nat.le_total _ _) rs
  exact h.imp fun hab => of_decide_eq_true hab

def ofRecords (rs : List Record) : Except Defect Program :=
  match h : firstRepeat (sorted rs) with
  | some order => .error (.duplicateOrder order)
  | none => .ok ⟨(sorted rs).toArray, increasing_of_firstRepeat _ (pairwise_sorted rs) h⟩

/-! ## from instructions -/

/-- the instructions with the numbers from `order` on -/
def number (order : Nat) : List Instr → List Record
  | [] => []
  | i :: is => ⟨order, i⟩ :: number (order + 1) is

theorem le_order_number (is : List Instr) (n : Nat) (r : Record) (h : r ∈ number n is) :
    n ≤ r.order := by
  induction is generalizing n with
  | nil => cases h
  | cons i is ih =>
    rcases List.mem_cons.mp h with rfl | h
    · exact Nat.le_refl _
    · exact Nat.le_of_succ_le (ih _ h)

theorem increasing_number (is : List Instr) (n : Nat) :
    (number n is).Pairwise fun a b => a.order < b.order := by
  induction is generalizing n with
  | nil => exact .nil
  | cons i is ih => exact List.pairwise_cons.mpr ⟨fun r h => le_order_number is _ r h, ih _⟩

def ofInstrs (is : List Instr) : Program := ⟨(number 1 is).toArray, increasing_number is 1⟩

theorem map_instr_number (is : List Instr) (n : Nat) : (number n is).map Record.instr = is := by
  induction is generalizing n with
  | nil => rfl
  | cons i is ih => rw [number, List.map_cons, ih]

theorem instrs_ofInstrs (is : List Instr) : (ofInstrs is).instrs = is := map_instr_number is 1

end Program
end IPPcode24
