import IPPcode24.Variable

/-!
# Frames

* `Slot`            what a declared variable holds: nothing yet, or a value
* `Frame`           slots by name, in increasing order of the names
* `Frames`          the global frame, the local frames with the innermost first, and the temporary
                    frame
* `AccessError`     why a frame or a variable cannot be used
* `Frames.declare`, `assign`, `slot`, `read`, `require`   on one variable
* `Frames.create`, `push`, `pop`                          on whole frames

An operation that fails gives no new frames.
-/

namespace IPPcode24

/-! ## slots by name -/

inductive Slot where
  | uninitialized
  | holds (v : Value)
deriving DecidableEq, Repr

/-- the entries with the slot of `name` set, in their order -/
def putSlot (name : String) (s : Slot) : List (String × Slot) → List (String × Slot)
  | [] => [(name, s)]
  | e :: es =>
    if name < e.1 then (name, s) :: e :: es
    else if name = e.1 then (name, s) :: es
    else e :: putSlot name s es

theorem mem_putSlot (name : String) (s : Slot) (es : List (String × Slot)) (e : String × Slot)
    (h : e ∈ putSlot name s es) : e = (name, s) ∨ e ∈ es := by
  induction es with
  | nil => exact .inl (List.mem_singleton.mp h)
  | cons f es ih =>
    rw [putSlot] at h
    split at h
    · exact List.mem_cons.mp h
    · split at h
      · rcases List.mem_cons.mp h with h | h
        · exact .inl h
        · exact .inr (List.mem_cons_of_mem _ h)
      · rcases List.mem_cons.mp h with h | h
        · exact .inr (h ▸ List.mem_cons_self)
        · exact (ih h).imp id (List.mem_cons_of_mem _)

theorem pairwise_putSlot (name : String) (s : Slot) (es : List (String × Slot))
    (h : es.Pairwise fun a b => a.1 < b.1) :
    (putSlot name s es).Pairwise fun a b => a.1 < b.1 := by
  induction es with
  | nil => exact List.pairwise_singleton _ _
  | cons e es ih =>
    have he := List.pairwise_cons.mp h
    rw [putSlot]
    split
    · next hlt =>
      refine List.pairwise_cons.mpr ⟨fun f hf => ?_, h⟩
      rcases List.mem_cons.mp hf with rfl | hf
      · exact hlt
      · exact String.lt_trans hlt (he.1 f hf)
    · next hlt =>
      split
      · next heq => exact List.pairwise_cons.mpr ⟨fun f hf => heq ▸ he.1 f hf, he.2⟩
      · next hne =>
        refine List.pairwise_cons.mpr ⟨fun f hf => ?_, ih he.2⟩
        rcases mem_putSlot _ _ _ _ hf with rfl | hf
        · refine String.not_le.mp fun hle => hne ?_
          exact String.le_antisymm hle (String.not_lt.mp hlt)
        · exact he.1 f hf

structure Frame where
  slots : List (String × Slot)
  increasing : slots.Pairwise fun a b => a.1 < b.1
deriving DecidableEq

namespace Frame

def empty : Frame := ⟨[], .nil⟩

def isEmpty (f : Frame) : Bool := f.slots.isEmpty

def get? (f : Frame) (name : String) : Option Slot := f.slots.lookup name

def contains (f : Frame) (name : String) : Bool := (f.get? name).isSome

def put (f : Frame) (name : String) (s : Slot) : Frame :=
  ⟨putSlot name s f.slots, pairwise_putSlot name s f.slots f.increasing⟩

/-- no name is there twice -/
theorem nodup_names (f : Frame) : (f.slots.map Prod.fst).Nodup :=
  List.pairwise_map.mpr (f.increasing.imp fun hab => String.ne_of_lt hab)

private theorem lookup_putSlot_self (name : String) (s : Slot) (es : List (String × Slot)) :
    (putSlot name s es).lookup name = some s := by
  induction es with
  | nil => simp [putSlot]
  | cons e es ih =>
    rw [putSlot]
    split
    · simp
    · split
      · simp
      · next hne => rw [List.lookup_cons, beq_eq_false_iff_ne.mpr hne]; exact ih

private theorem lookup_putSlot_of_ne (name other : String) (s : Slot) (es : List (String × Slot))
    (h : other ≠ name) : (putSlot name s es).lookup other = es.lookup other := by
  have hb : (other == name) = false := beq_eq_false_iff_ne.mpr h
  induction es with
  | nil => simp [putSlot, List.lookup_cons, hb]
  | cons e es ih =>
    rw [putSlot]
    split
    · rw [List.lookup_cons]; simp [hb]
    · split
      · next heq => rw [List.lookup_cons, List.lookup_cons, ← heq]; simp [hb]
      · rw [List.lookup_cons, List.lookup_cons, ih]

/-- the slot that was put is found -/
theorem get?_put_self (f : Frame) (name : String) (s : Slot) :
    (f.put name s).get? name = some s := lookup_putSlot_self name s f.slots

/-- the slots of other names stay -/
theorem get?_put_of_ne (f : Frame) (name other : String) (s : Slot) (h : other ≠ name) :
    (f.put name s).get? other = f.get? other := lookup_putSlot_of_ne name other s f.slots h

end Frame

/-! ## the three kinds of frames -/

inductive AccessError where
  | missingFrame (f : FrameName)
  | undeclared (v : Var)
  | uninitialized (v : Var)
  | redefined (v : Var)
deriving DecidableEq, Repr

def AccessError.message : AccessError → String
  | .missingFrame f => "frame " ++ f.text ++ " does not exist"
  | .undeclared v => "undeclared variable " ++ v.text
  | .uninitialized v => "uninitialized variable " ++ v.text
  | .redefined v => "variable " ++ v.text ++ " redefined"

def AccessError.category : AccessError → Category
  | .missingFrame _ => .frameAccess
  | .undeclared _ => .undefinedVariable
  | .uninitialized _ => .undefinedVariable
  | .redefined _ => .semantic

structure Frames where
  global : Frame
  locals : List Frame
  temporary : Option Frame
deriving DecidableEq

namespace Frames

def empty : Frames := ⟨Frame.empty, [], none⟩

/-- the number of local frames -/
def depth (fs : Frames) : Nat := fs.locals.length

/-- the frame that a name stands for -/
def frame? (fs : Frames) : FrameName → Option Frame
  | .gf => some fs.global
  | .lf => fs.locals.head?
  | .tf => fs.temporary

/-- the frames with another frame under a name; nothing changes if there is none under it -/
def replace (fs : Frames) (f : Frame) : FrameName → Frames
  | .gf => { fs with global := f }
  | .lf =>
    match fs.locals with
    | [] => fs
    | _ :: outer => { fs with locals := f :: outer }
  | .tf =>
    match fs.temporary with
    | none => fs
    | some _ => { fs with temporary := some f }

def frame (fs : Frames) (k : FrameName) : Except AccessError Frame :=
  match fs.frame? k with
  | some f => .ok f
  | none => .error (.missingFrame k)

/-! ## on one variable -/

def slot (fs : Frames) (v : Var) : Except AccessError Slot := do
  match (← fs.frame v.frame).get? v.name with
  | some s => .ok s
  | none => .error (.undeclared v)

def require (fs : Frames) (v : Var) : Except AccessError Unit := do
  let _ ← fs.slot v

def read (fs : Frames) (v : Var) : Except AccessError Value := do
  match ← fs.slot v with
  | .holds x => .ok x
  | .uninitialized => .error (.uninitialized v)

def declare (fs : Frames) (v : Var) : Except AccessError Frames := do
  let f ← fs.frame v.frame
  if f.contains v.name then .error (.redefined v)
  else .ok (fs.replace (f.put v.name .uninitialized) v.frame)

/-- sets a variable, which need not be declared -/
def assign (fs : Frames) (v : Var) (x : Value) : Except AccessError Frames := do
  let f ← fs.frame v.frame
  .ok (fs.replace (f.put v.name (.holds x)) v.frame)

/-! ## on whole frames -/

/-- an empty temporary frame instead of the one there is -/
def create (fs : Frames) : Frames := { fs with temporary := some Frame.empty }

/-- the temporary frame becomes the innermost local one -/
def push (fs : Frames) : Except AccessError Frames :=
  match fs.temporary with
  | none => .error (.missingFrame .tf)
  | some f => .ok { fs with locals := f :: fs.locals, temporary := none }

/-- the innermost local frame becomes the temporary one -/
def pop (fs : Frames) : Except AccessError Frames :=
  match fs.locals with
  | [] => .error (.missingFrame .lf)
  | f :: outer => .ok { fs with locals := outer, temporary := some f }

/-- the frame that was put under a name is found there -/
theorem frame?_replace_self (fs : Frames) (f g : Frame) (k : FrameName) (h : fs.frame? k = some g) :
    (fs.replace f k).frame? k = some f := by
  cases k with
  | gf => rfl
  | lf =>
    cases hl : fs.locals with
    | nil => rw [frame?, hl] at h; cases h
    | cons _ outer => simp [replace, frame?, hl]
  | tf =>
    have ht : fs.temporary = some g := h
    simp [replace, frame?, ht]

/-- the frames under other names stay -/
theorem frame?_replace_of_ne (fs : Frames) (f : Frame) (k j : FrameName) (h : j ≠ k) :
    (fs.replace f k).frame? j = fs.frame? j := by
  cases k with
  | gf =>
    cases j with
    | gf => exact absurd rfl h
    | lf => rfl
    | tf => rfl
  | lf =>
    cases hl : fs.locals with
    | nil => rw [replace, hl]
    | cons _ outer =>
      cases j with
      | gf => simp [replace, frame?, hl]
      | lf => exact absurd rfl h
      | tf => simp [replace, frame?, hl]
  | tf =>
    cases ht : fs.temporary with
    | none => rw [replace, ht]
    | some _ =>
      cases j with
      | gf => simp [replace, frame?, ht]
      | lf => simp [replace, frame?, ht]
      | tf => exact absurd rfl h

end Frames
end IPPcode24
