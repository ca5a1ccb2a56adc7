import IPPcode24.Proofs.FrameUse
import IPPcode24.Proofs.Labels
import Mathlib.Logic.Function.Basic

/-!
# The frames as a store

A store gives the slots of every frame by place and name and has no other structure: setting a slot
is an update, and pushing and popping renames the places.  Frames do what the store does, over any
history, and what they say of a variable depends on where it stands and on nothing else.

* `Standing`, `Frames.Stands`      where a variable stands: four ways, of which it has exactly one
* `Standing.slot`, `read`, ...     what an access says of a variable that stands so
* `FrameAction`                    what can be done to frames; `routine` does it in place
* `Store`, `Frames.store`          the store, and the one that frames are
* `Store.step`, `Store.after`      the store after an action, and after a history
* `FrameAction.run_eq`             **frames do what the store does**
* `Frames.store_after`             over any history too

Main statement, `Frames.store_laws`.
-/

namespace IPPcode24

/-! ## where a variable stands -/

inductive Standing where
  /-- there is no such frame -/
  | missing
  | undeclared
  | uninitialized
  | holds (x : Value)
deriving DecidableEq, Repr

namespace Standing

/-- what is found in a frame, if there is one -/
def ofFound : Option (Option Slot) → Standing
  | none => .missing
  | some none => .undeclared
  | some (some .uninitialized) => .uninitialized
  | some (some (.holds x)) => .holds x

/-! ### what an access to a variable comes to -/

variable (v : Var)

def found : Standing → Except AccessError (Option Slot)
  | .missing => .error (.missingFrame v.frame)
  | .undeclared => .ok none
  | .uninitialized => .ok (some .uninitialized)
  | .holds x => .ok (some (.holds x))

def slot : Standing → Except AccessError Slot
  | .missing => .error (.missingFrame v.frame)
  | .undeclared => .error (.undeclared v)
  | .uninitialized => .ok .uninitialized
  | .holds x => .ok (.holds x)

def read : Standing → Except AccessError Value
  | .missing => .error (.missingFrame v.frame)
  | .undeclared => .error (.undeclared v)
  | .uninitialized => .error (.uninitialized v)
  | .holds x => .ok x

def declare : Standing → Except AccessError Unit
  | .missing => .error (.missingFrame v.frame)
  | .undeclared => .ok ()
  | .uninitialized | .holds _ => .error (.redefined v)

def assign : Standing → Except AccessError Unit
  | .missing => .error (.missingFrame v.frame)
  | .undeclared | .uninitialized | .holds _ => .ok ()

/-! ### and when it comes to that -/

variable (st : Standing)

theorem declare_eq_ok : st.declare v = .ok () ↔ st = .undeclared := by
  cases st <;> simp [declare]

theorem declare_eq_redefined :
    st.declare v = .error (.redefined v) ↔ st = .uninitialized ∨ ∃ x, st = .holds x := by
  cases st <;> simp [declare]

theorem assign_eq_error : (∃ e, st.assign v = .error e) ↔ st = .missing := by
  cases st <;> simp [assign]

theorem read_eq_ok (x : Value) : st.read v = .ok x ↔ st = .holds x := by
  cases st <;> simp [read]

end Standing

theorem Frame.get?_eq_some (f : Frame) (name : String) (s : Slot) :
    f.get? name = some s ↔ (name, s) ∈ f.slots :=
  lookup_eq_some_of_nodup f.slots f.nodup_names name s

theorem Frame.get?_eq_none (f : Frame) (name : String) :
    f.get? name = none ↔ ∀ s, (name, s) ∉ f.slots := by
  rw [Option.eq_none_iff_forall_ne_some]
  exact forall_congr' fun s => not_congr (f.get?_eq_some name s)

namespace Frames

/-- the variable of a name stands so in the frame of a place -/
inductive Stands (fs : Frames) (p : Place) (name : String) : Standing → Prop where
  | missing (h : fs.at? p = none) : Stands fs p name .missing
  | undeclared (f : Frame) (hf : fs.at? p = some f) (h : ∀ s, (name, s) ∉ f.slots) :
    Stands fs p name .undeclared
  | uninitialized (f : Frame) (hf : fs.at? p = some f) (h : (name, .uninitialized) ∈ f.slots) :
    Stands fs p name .uninitialized
  | holds (x : Value) (f : Frame) (hf : fs.at? p = some f) (h : (name, .holds x) ∈ f.slots) :
    Stands fs p name (.holds x)

/-- it stands as it is found -/
theorem stands_iff (fs : Frames) (p : Place) (name : String) (st : Standing) :
    fs.Stands p name st ↔ st = .ofFound ((fs.at? p).map fun f => f.get? name) := by
  constructor
  · intro h
    cases h with
    | missing h => rw [h]; rfl
    | undeclared f hf h => rw [hf, Option.map_some, (f.get?_eq_none name).mpr h]; rfl
    | uninitialized f hf h => rw [hf, Option.map_some, (f.get?_eq_some name _).mpr h]; rfl
    | holds x f hf h => rw [hf, Option.map_some, (f.get?_eq_some name _).mpr h]; rfl
  · rintro rfl
    cases hf : fs.at? p with
    | none => exact .missing hf
    | some f =>
      rw [Option.map_some]
      cases hs : f.get? name with
      | none => exact .undeclared f hf ((f.get?_eq_none name).mp hs)
      | some s =>
        have hmem := (f.get?_eq_some name s).mp hs
        cases s with
        | uninitialized => exact .uninitialized f hf hmem
        | holds x => exact .holds x f hf hmem

/-- there is no other way in which it stands -/
theorem Stands.iff_eq {fs : Frames} {p : Place} {name : String} {st : Standing}
    (h : fs.Stands p name st) (st' : Standing) : fs.Stands p name st' ↔ st' = st := by
  rw [stands_iff] at h ⊢
  rw [h]

theorem existsUnique_stands (fs : Frames) (p : Place) (name : String) :
    ∃! st, fs.Stands p name st := by
  simp only [stands_iff]
  exact existsUnique_eq

/-! ## accesses -/

namespace Stands

variable {fs : Frames} {v : Var} {st : Standing} (h : fs.Stands v.frame.place v.name st)
include h

/-- what is found in the frame of a variable -/
theorem found : (fs.frame v.frame).map (fun f => f.get? v.name) = st.found v := by
  rw [stands_iff, at?_place] at h
  rw [frame, h]
  cases fs.frame? v.frame with
  | none => rfl
  | some f =>
    show Except.ok (f.get? v.name) = (Standing.ofFound (some (f.get? v.name))).found v
    rcases f.get? v.name with _ | _ | x <;> rfl

/-- the frame of a variable, and its slot there -/
theorem frame_cases : (st = .missing ∧ fs.frame v.frame = .error (.missingFrame v.frame)) ∨
    ∃ f, fs.frame v.frame = .ok f ∧ st.found v = .ok (f.get? v.name) := by
  have hfound := h.found
  cases hf : fs.frame v.frame with
  | error e =>
    rw [hf] at hfound
    cases st with
    | missing => cases hfound; exact .inl ⟨rfl, rfl⟩
    | _ => cases hfound
  | ok f =>
    rw [hf] at hfound
    exact .inr ⟨f, rfl, hfound.symm⟩

theorem slot : fs.slot v = st.slot v := by
  rw [Frames.slot]
  obtain ⟨rfl, hf⟩ | ⟨f, hf, hfound⟩ := h.frame_cases
  · rw [hf]
    rfl
  · rw [hf]
    simp only [bind, Except.bind]
    cases st with
    | missing => cases hfound
    | _ => rw [← Except.ok.inj hfound]; rfl

theorem require : fs.require v = (st.slot v).map fun _ => () := by
  rw [Frames.require, h.slot]
  cases st <;> rfl

theorem read : fs.read v = st.read v := by
  rw [Frames.read, h.slot]
  cases st <;> rfl

theorem declare : (fs.declare v).map (fun _ => ()) = st.declare v := by
  rw [Frames.declare]
  obtain ⟨rfl, hf⟩ | ⟨f, hf, hfound⟩ := h.frame_cases
  · rw [hf]
    rfl
  · rw [hf]
    show (if (f.get? v.name).isSome then _ else _ : Except _ _).map _ = _
    cases st with
    | missing => cases hfound
    | _ => rw [← Except.ok.inj hfound]; rfl

theorem assign (x : Value) : (fs.assign v x).map (fun _ => ()) = st.assign v := by
  rw [Frames.assign]
  obtain ⟨rfl, hf⟩ | ⟨f, hf, hfound⟩ := h.frame_cases
  · rw [hf]
    rfl
  · rw [hf]
    cases st with
    | missing => cases hfound
    | _ => rfl

end Stands
end Frames

/-! ## what can be done to frames -/

inductive FrameAction where
  | create
  | push
  | pop
  | declare (v : Var)
  | assign (v : Var) (x : Value)
deriving DecidableEq, Repr

namespace FrameAction

def run (fs : Frames) : FrameAction → Except AccessError Frames
  | .create => .ok fs.create
  | .push => fs.push
  | .pop => fs.pop
  | .declare v => fs.declare v
  | .assign v x => fs.assign v x

/-- in place, as a machine does it -/
def routine (t : Labels) (order : Nat) : FrameAction → Routine Course
  | .create => .ofOpcode t order .createFrame []
  | .push => .ofOpcode t order .pushFrame []
  | .pop => .ofOpcode t order .popFrame []
  | .declare v => .ofOpcode t order .defVar [.var v]
  | .assign v x => .store v x

/-- **In place nothing else is changed, and nothing at all by an action that fails.** -/
theorem routine_apply (t : Labels) (order : Nat) (s : State) (a : FrameAction) :
    a.routine t order s = s.finish ((ofAccess (a.run s.memory.frames)).map fun gs =>
      .ahead { s.memory with frames := gs }) := by
  have hbind : ∀ r : Except AccessError Frames,
      (ofAccess r >>= fun gs => .ok (Effect.ahead { s.memory with frames := gs }))
        = (ofAccess r).map fun gs => .ahead { s.memory with frames := gs } := by
    intro r
    cases r <;> rfl
  cases a with
  | create => rfl
  | push => rw [run, ← hbind]; exact Routine.ofOpcode_eq_finish t order s .pushFrame
  | pop => rw [run, ← hbind]; exact Routine.ofOpcode_eq_finish t order s .popFrame
  | declare v => rw [run, ← hbind]; exact Routine.ofOpcode_eq_finish t order s (.defVar v)
  | assign v x =>
    rw [routine, Routine.store_apply, Memory.setVar, run, bind_of_map, hbind]

end FrameAction

/-- the frames after an action; one that fails leaves them -/
def Frames.step (fs : Frames) (a : FrameAction) : Frames :=
  match a.run fs with
  | .ok gs => gs
  | .error _ => fs

def Frames.after (actions : List FrameAction) : Frames := actions.foldl Frames.step Frames.empty

/-! ## stores -/

/-- the slots by place and name, without a slot where there is no variable -/
abbrev Store := Place → Option (String → Option Slot)

namespace Store

def empty : Store
  | .gf => some fun _ => none
  | .lf _ | .tf => none

/-- the store with a slot set in the frame of a place, if there is one -/
def set (σ : Store) (p : Place) (name : String) (s : Slot) : Store :=
  Function.update σ p ((σ p).map fun g => Function.update g name (some s))

/-- where a variable stands in the store -/
def standing (σ : Store) (p : Place) (name : String) : Standing :=
  .ofFound ((σ p).map fun g => g name)

/-- what an action makes of the store, where it does not fail -/
def act (σ : Store) : FrameAction → Store
  | .create => Function.update σ .tf (some fun _ => none)
  | .push => fun
    | .gf => σ .gf
    | .lf 0 => σ .tf
    | .lf (k + 1) => σ (.lf k)
    | .tf => none
  | .pop => fun
    | .gf => σ .gf
    | .lf k => σ (.lf (k + 1))
    | .tf => σ (.lf 0)
  | .declare v => σ.set v.frame.place v.name .uninitialized
  | .assign v x => σ.set v.frame.place v.name (.holds x)

/-- an action is refused, by where its variable or its frame stands -/
def admits (σ : Store) : FrameAction → Except AccessError Unit
  | .create => .ok ()
  | .push => if (σ .tf).isSome then .ok () else .error (.missingFrame .tf)
  | .pop => if (σ (.lf 0)).isSome then .ok () else .error (.missingFrame .lf)
  | .declare v => (σ.standing v.frame.place v.name).declare v
  | .assign v _ => (σ.standing v.frame.place v.name).assign v

def step (σ : Store) (a : FrameAction) : Store :=
  match σ.admits a with
  | .ok _ => σ.act a
  | .error _ => σ

def after (actions : List FrameAction) : Store := actions.foldl step empty

end Store

namespace Frames

def store (fs : Frames) : Store := fun p => (fs.at? p).map Frame.get?

theorem stands_iff_standing (fs : Frames) (p : Place) (name : String) (st : Standing) :
    fs.Stands p name st ↔ st = fs.store.standing p name := by
  rw [stands_iff, Store.standing, store, Option.map_map]
  rfl

theorem get?_put (f : Frame) (name : String) (s : Slot) :
    (f.put name s).get? = Function.update f.get? name (some s) := by
  funext other
  by_cases h : other = name
  · rw [h, Function.update_self, f.get?_put_self]
  · rw [Function.update_of_ne h, f.get?_put_of_ne _ _ _ h]

theorem store_replace (fs : Frames) (v : Var) (f : Frame) (s : Slot)
    (hf : fs.frame? v.frame = some f) :
    (fs.replace (f.put v.name s) v.frame).store = fs.store.set v.frame.place v.name s := by
  funext p
  by_cases hp : p = v.frame.place
  · rw [hp, Store.set, Function.update_self, store, store, at?_place, at?_place, hf,
      fs.frame?_replace_self _ f _ hf, Option.map_some, Option.map_some, Option.map_some, get?_put]
  · rw [Store.set, Function.update_of_ne hp, store, store, fs.at?_replace_of_ne _ _ _ hp]

end Frames

/-- **Frames do what the store does.** -/
theorem FrameAction.run_eq (a : FrameAction) (fs : Frames) :
    (a.run fs).map Frames.store = (fs.store.admits a).map fun _ => fs.store.act a := by
  have hstands : ∀ v : Var, fs.Stands v.frame.place v.name
      (fs.store.standing v.frame.place v.name) := fun v => (fs.stands_iff_standing _ _ _).mpr rfl
  cases a with
  | create =>
    refine congrArg Except.ok (funext fun p => ?_)
    cases p <;> rfl
  | push =>
    obtain ⟨global, outer, temporary⟩ := fs
    cases temporary with
    | none => rfl
    | some f =>
      -- the innermost local frame is the temporary one, and each other was one further in
      refine congrArg Except.ok (funext fun p => ?_)
      rcases p with _ | ⟨_ | k⟩ | _ <;> rfl
  | pop =>
    obtain ⟨global, inner, temporary⟩ := fs
    cases inner with
    | nil => rfl
    | cons f outer =>
      refine congrArg Except.ok (funext fun p => ?_)
      cases p <;> rfl
  | declare v =>
    have hdeclare := (hstands v).declare
    rw [run, Store.admits, ← hdeclare]
    cases hd : fs.declare v with
    | error e => rfl
    | ok gs =>
      obtain ⟨f, hf, _, rfl⟩ := (fs.declare_eq_ok gs v).mp hd
      exact congrArg Except.ok (fs.store_replace v f _ hf)
  | assign v x =>
    have hassign := (hstands v).assign x
    rw [run, Store.admits, ← hassign]
    cases ha : fs.assign v x with
    | error e => rfl
    | ok gs =>
      obtain ⟨f, hf, rfl⟩ := (fs.assign_eq_ok gs v x).mp ha
      exact congrArg Except.ok (fs.store_replace v f _ hf)

namespace Frames

theorem store_of_run {fs gs : Frames} {a : FrameAction} (h : a.run fs = .ok gs) :
    gs.store = fs.store.act a := by
  have hrun := a.run_eq fs
  rw [h] at hrun
  obtain ⟨_, _, hact⟩ := (map_eq_ok _ _ _).mp hrun.symm
  exact hact.symm

theorem store_step (fs : Frames) (a : FrameAction) : (fs.step a).store = fs.store.step a := by
  have hrun := a.run_eq fs
  rw [step, Store.step]
  cases h : a.run fs with
  | ok gs =>
    rw [h] at hrun
    obtain ⟨_, hadmits, _⟩ := (map_eq_ok _ _ _).mp hrun.symm
    rw [hadmits]
    exact store_of_run h
  | error e =>
    rw [h] at hrun
    cases hadmits : fs.store.admits a with
    | ok u => rw [hadmits] at hrun; cases hrun
    | error e' => rfl

/-- over any history too -/
theorem store_after (actions : List FrameAction) : (after actions).store = Store.after actions := by
  -- from all frames and their store, since the first action changes both
  have hfold : ∀ (fs : Frames) (σ : Store), fs.store = σ →
      (actions.foldl step fs).store = actions.foldl Store.step σ := by
    induction actions with
    | nil => exact fun _ _ h => h
    | cons a actions ih =>
      intro fs σ h
      refine ih (fs.step a) (σ.step a) ?_
      rw [store_step, h]
  refine hfold empty Store.empty (funext fun p => ?_)
  cases p <;> rfl

theorem after_append (actions : List FrameAction) (a : FrameAction) :
    after (actions ++ [a]) = (after actions).step a := by
  rw [after, List.foldl_append]
  rfl

/-! ## what an action moves -/

/-- what stands in the place `p` of `fs` stands in the place `q` of `gs`, and nothing else does -/
def Carries (fs : Frames) (p : Place) (gs : Frames) (q : Place) : Prop :=
  ∀ name st, gs.Stands q name st ↔ fs.Stands p name st

/-- the variable stands so in `gs`, and all others stand as they do in `fs` -/
def ChangesOnly (fs gs : Frames) (v : Var) (st : Standing) : Prop :=
  gs.Stands v.frame.place v.name st ∧ ∀ p name, (p, name) ≠ (v.frame.place, v.name) →
    ∀ other, gs.Stands p name other ↔ fs.Stands p name other

variable {fs gs : Frames}

theorem carries_of_store {p q : Place} (h : gs.store q = fs.store p) : fs.Carries p gs q := by
  intro name st
  rw [stands_iff_standing, stands_iff_standing, Store.standing, h]
  rfl

theorem changesOnly_of_store (v : Var) (s : Slot) (f : Frame) (hf : fs.frame? v.frame = some f)
    (h : gs.store = fs.store.set v.frame.place v.name s) :
    fs.ChangesOnly gs v (.ofFound (some (some s))) := by
  have hplace : fs.store v.frame.place = some f.get? := by rw [store, at?_place, hf]; rfl
  refine ⟨?_, fun p name hne other => ?_⟩
  · rw [stands_iff_standing, Store.standing, h, Store.set, Function.update_self, hplace,
      Option.map_some, Option.map_some, Function.update_self]
  · rw [stands_iff_standing, stands_iff_standing, Store.standing, Store.standing, h, Store.set]
    by_cases hp : p = v.frame.place
    · have hname : name ≠ v.name := by
        rintro rfl
        exact hne (by rw [hp])
      rw [hp, Function.update_self, hplace, Option.map_some, Option.map_some, Option.map_some,
        Function.update_of_ne hname]
    · rw [Function.update_of_ne hp]

theorem changesOnly_of_declare (v : Var) (h : fs.declare v = .ok gs) :
    fs.ChangesOnly gs v .uninitialized := by
  obtain ⟨f, hf, _, rfl⟩ := (fs.declare_eq_ok gs v).mp h
  exact changesOnly_of_store v _ f hf (fs.store_replace v f _ hf)

theorem changesOnly_of_assign (v : Var) (x : Value) (h : fs.assign v x = .ok gs) :
    fs.ChangesOnly gs v (.holds x) := by
  obtain ⟨f, hf, rfl⟩ := (fs.assign_eq_ok gs v x).mp h
  exact changesOnly_of_store v _ f hf (fs.store_replace v f _ hf)

/-- the temporary frame becomes the innermost local one -/
theorem carries_of_push (h : fs.push = .ok gs) : fs.Carries .tf gs (.lf 0) ∧
    (∀ k, fs.Carries (.lf k) gs (.lf (k + 1))) ∧ fs.Carries .gf gs .gf ∧
    ∀ name, gs.Stands .tf name .missing := by
  have hgs : gs.store = fs.store.act .push := store_of_run (a := .push) h
  refine ⟨carries_of_store (congrFun hgs _), fun k => carries_of_store (congrFun hgs _),
    carries_of_store (congrFun hgs _), fun name => ?_⟩
  rw [stands_iff_standing, hgs]
  rfl

/-- and that one the temporary frame -/
theorem carries_of_pop (h : fs.pop = .ok gs) : fs.Carries (.lf 0) gs .tf ∧
    (∀ k, fs.Carries (.lf (k + 1)) gs (.lf k)) ∧ fs.Carries .gf gs .gf := by
  have hgs : gs.store = fs.store.act .pop := store_of_run (a := .pop) h
  exact ⟨carries_of_store (congrFun hgs _), fun k => carries_of_store (congrFun hgs _),
    carries_of_store (congrFun hgs _)⟩

theorem carries_of_create (fs : Frames) (p : Place) (hp : p ≠ .tf) :
    fs.Carries p fs.create p := by
  refine carries_of_store ?_
  cases p with
  | tf => exact absurd rfl hp
  | _ => rfl

/-! ## when an access succeeds -/

section
variable (fs : Frames) (v : Var)

theorem exists_declare_iff :
    (∃ gs, fs.declare v = .ok gs) ↔ fs.Stands v.frame.place v.name .undeclared := by
  obtain ⟨st, h, _⟩ := fs.existsUnique_stands v.frame.place v.name
  rw [h.iff_eq, eq_comm, ← Standing.declare_eq_ok v, ← h.declare, map_eq_ok]
  simp

theorem declare_eq_redefined_iff : fs.declare v = .error (.redefined v) ↔
    fs.Stands v.frame.place v.name .uninitialized ∨
      ∃ x, fs.Stands v.frame.place v.name (.holds x) := by
  obtain ⟨st, h, _⟩ := fs.existsUnique_stands v.frame.place v.name
  simp only [h.iff_eq, eq_comm (b := st)]
  rw [← Standing.declare_eq_redefined v, ← h.declare, map_eq_error]

theorem exists_assign_error_iff (x : Value) :
    (∃ e, fs.assign v x = .error e) ↔ fs.Stands v.frame.place v.name .missing := by
  obtain ⟨st, h, _⟩ := fs.existsUnique_stands v.frame.place v.name
  rw [h.iff_eq, eq_comm, ← Standing.assign_eq_error v, ← h.assign x]
  simp only [map_eq_error]

theorem read_eq_ok_iff_holds (x : Value) :
    fs.read v = .ok x ↔ fs.Stands v.frame.place v.name (.holds x) := by
  obtain ⟨st, h, _⟩ := fs.existsUnique_stands v.frame.place v.name
  rw [h.iff_eq, h.read, Standing.read_eq_ok, eq_comm]

end

/-! ## what is left by an action -/

section
variable {actions : List FrameAction} {a : FrameAction} {t : Labels} {order : Nat} {s : State}

theorem after_of_error {e : AccessError} (h : a.run (after actions) = .error e) :
    after (actions ++ [a]) = after actions := by
  rw [after_append, step, h]

theorem after_of_ok (h : a.run (after actions) = .ok gs) : after (actions ++ [a]) = gs := by
  rw [after_append, step, h]

theorem routine_of_error {e : AccessError} (hs : s.memory.frames = fs)
    (h : a.run fs = .error e) : a.routine t order s = .error (.access e) s := by
  rw [a.routine_apply, hs, h]
  rfl

theorem routine_of_ok (hs : s.memory.frames = fs) (h : a.run fs = .ok gs) :
    a.routine t order s = .ok .ahead { s with memory := { s.memory with frames := gs } } := by
  rw [a.routine_apply, hs, h]
  rfl

end

/-! ## the laws -/

/-- **The frames are a store, whatever was done to them.**  After any history they hold what a plain
store holds, and the next action is refused or done as the store says.  In every place a name stands
in exactly one way, and all accesses to a variable go by that: it is declared if it is undeclared,
and redefined if it is declared, setting it needs the frame and nothing else, and a value is read
where it holds one.  An action that fails leaves the frames, and in a machine the whole state, as
they were; one that succeeds changes nothing but the frames.  Declaring and setting change where
their variable stands and leave all others, in other frames too; pushing moves the temporary frame
on top of the local ones and leaves none, popping moves the innermost local frame back. -/
theorem store_laws (actions : List FrameAction) :
    let fs := Frames.after actions
    let σ := Store.after actions
    (∀ p name, (∃! st, fs.Stands p name st) ∧ fs.Stands p name (σ.standing p name)) ∧
    (∀ a : FrameAction, (a.run fs).map store = (σ.admits a).map fun _ => σ.act a) ∧
    (∀ v st, fs.Stands v.frame.place v.name st →
      (fs.frame v.frame).map (fun f => f.get? v.name) = st.found v ∧
      fs.slot v = st.slot v ∧ fs.require v = (st.slot v).map (fun _ => ()) ∧
      fs.read v = st.read v ∧ (fs.declare v).map (fun _ => ()) = st.declare v ∧
      ∀ x, (fs.assign v x).map (fun _ => ()) = st.assign v) ∧
    (∀ v : Var, let stands := fs.Stands v.frame.place v.name
      ((∃ gs, fs.declare v = .ok gs) ↔ stands .undeclared) ∧
      (fs.declare v = .error (.redefined v) ↔ stands .uninitialized ∨ ∃ x, stands (.holds x)) ∧
      (∀ x, (∃ e, fs.assign v x = .error e) ↔ stands .missing) ∧
      ∀ x, fs.read v = .ok x ↔ stands (.holds x)) ∧
    (∀ (a : FrameAction) e, a.run fs = .error e → after (actions ++ [a]) = fs ∧
      ∀ t order (s : State), s.memory.frames = fs →
        a.routine t order s = .error (.access e) s) ∧
    (∀ (a : FrameAction) gs, a.run fs = .ok gs → after (actions ++ [a]) = gs ∧
      ∀ t order (s : State), s.memory.frames = fs →
        a.routine t order s = .ok .ahead { s with memory := { s.memory with frames := gs } }) ∧
    (∀ v gs, fs.declare v = .ok gs → fs.ChangesOnly gs v .uninitialized) ∧
    (∀ v x gs, fs.assign v x = .ok gs → fs.ChangesOnly gs v (.holds x)) ∧
    (∀ gs, fs.push = .ok gs → fs.Carries .tf gs (.lf 0) ∧
      (∀ k, fs.Carries (.lf k) gs (.lf (k + 1))) ∧ fs.Carries .gf gs .gf ∧
      ∀ name, gs.Stands .tf name .missing) ∧
    (∀ gs, fs.pop = .ok gs → fs.Carries (.lf 0) gs .tf ∧
      (∀ k, fs.Carries (.lf (k + 1)) gs (.lf k)) ∧ fs.Carries .gf gs .gf) ∧
    (∀ name, fs.create.Stands .tf name .undeclared) ∧ ∀ p, p ≠ .tf → fs.Carries p fs.create p := by
  intro fs σ
  have hstore : fs.store = σ := store_after actions
  refine ⟨fun p name => ⟨fs.existsUnique_stands p name, ?_⟩, fun a => ?_,
    fun v st h => ⟨h.found, h.slot, h.require, h.read, h.declare, h.assign⟩,
    fun v => ⟨fs.exists_declare_iff v, fs.declare_eq_redefined_iff v,
      fs.exists_assign_error_iff v, fs.read_eq_ok_iff_holds v⟩,
    fun a e ha => ⟨after_of_error ha, fun t order s hs => routine_of_error hs ha⟩,
    fun a gs ha => ⟨after_of_ok ha, fun t order s hs => routine_of_ok hs ha⟩,
    fun v gs => changesOnly_of_declare v, fun v x gs => changesOnly_of_assign v x,
    fun gs => carries_of_push, fun gs => carries_of_pop,
    fun name => .undeclared .empty rfl fun _ => List.not_mem_nil, fs.carries_of_create⟩
  · rw [stands_iff_standing, hstore]
  · rw [a.run_eq, hstore]

/-- two local frames with one name in both: declared in the outer, set in the inner one -/
def twoFrames : List FrameAction :=
  [.create, .declare ⟨.tf, "a"⟩, .push, .create, .assign ⟨.tf, "a"⟩ (.int 7), .push]

/-- the name is found in the inner frame, and in the outer one when the inner one is popped -/
theorem store_laws_nested :
    let fs := after twoFrames
    fs.Stands (.lf 0) "a" (.holds (.int 7)) ∧ fs.read ⟨.lf, "a"⟩ = .ok (.int 7) ∧
      fs.declare ⟨.lf, "a"⟩ = .error (.redefined ⟨.lf, "a"⟩) ∧
      (∀ s : State, s.memory.frames = fs →
        FrameAction.push.routine ⟨[]⟩ 0 s = .error (.access (.missingFrame .tf)) s) ∧
      ∃ gs, fs.pop = .ok gs ∧ gs.Stands .tf "a" (.holds (.int 7)) ∧
        gs.Stands (.lf 0) "a" .uninitialized := by
  intro fs
  have hinner : fs.Stands (.lf 0) "a" (.holds (.int 7)) := .holds _ _ rfl (by decide)
  have houter : fs.Stands (.lf 1) "a" .uninitialized := .uninitialized _ rfl (by decide)
  obtain ⟨_, _, haccess, hdecides, hfails, _, _, _, _, hpops, _⟩ := store_laws twoFrames
  obtain ⟨_, _, _, hread, _⟩ := haccess ⟨.lf, "a"⟩ _ hinner
  obtain ⟨_, hredefined, _, _⟩ := hdecides ⟨.lf, "a"⟩
  obtain ⟨_, hkept⟩ := hfails .push (.missingFrame .tf) rfl
  obtain ⟨htf, hlf, _⟩ := hpops _ rfl
  exact ⟨hinner, hread, hredefined.mpr (.inr ⟨_, hinner⟩), hkept ⟨[]⟩ 0, _, rfl,
    (htf _ _).mpr hinner, (hlf 0 _ _).mpr houter⟩

end Frames
end IPPcode24
