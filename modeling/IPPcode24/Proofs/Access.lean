import IPPcode24.Machine.Memory
import IPPcode24.Proofs.Results

/-!
# Access to the frames

* `Frames.slot_eq_ok`, `assign_eq_ok`, `push_eq_ok`, ...   when an operation on frames gives a
                                  result, and which
* `AccessError.Holds fs e`        what the error says of the frames is the case
* `Frames.slot_fails`, ...        an operation fails with such errors only
-/

namespace IPPcode24

/-! ## results that are in order -/

theorem ofAccess_eq_ok {α : Type} (r : Except AccessError α) (a : α) :
    ofAccess r = .ok a ↔ r = .ok a := by
  cases r with
  | ok b => exact ⟨fun h => by cases h; rfl, fun h => by cases h; rfl⟩
  | error e => exact ⟨fun h => (nomatch h), fun h => (nomatch h)⟩

namespace Frames

section
variable (fs gs : Frames) (v : Var)

theorem frame_eq_ok (k : FrameName) (f : Frame) : fs.frame k = .ok f ↔ fs.frame? k = some f := by
  rw [frame]
  cases fs.frame? k with
  | some g => exact ⟨fun h => by cases h; rfl, fun h => by cases h; rfl⟩
  | none => exact ⟨fun h => (nomatch h), fun h => (nomatch h)⟩

theorem slot_eq_ok (s : Slot) :
    fs.slot v = .ok s ↔ ∃ f, fs.frame? v.frame = some f ∧ f.get? v.name = some s := by
  rw [slot, bind_eq_ok]
  refine exists_congr fun f => ?_
  rw [frame_eq_ok]
  refine and_congr_right fun _ => ?_
  cases f.get? v.name with
  | some s' => exact ⟨fun h => by cases h; rfl, fun h => by cases h; rfl⟩
  | none => exact ⟨fun h => (nomatch h), fun h => (nomatch h)⟩

theorem require_eq_ok :
    fs.require v = .ok () ↔ ∃ f s, fs.frame? v.frame = some f ∧ f.get? v.name = some s := by
  rw [require, bind_eq_ok, exists_comm]
  refine exists_congr fun s => ?_
  rw [slot_eq_ok]
  exact and_iff_left rfl

theorem declare_eq_ok :
    fs.declare v = .ok gs ↔ ∃ f, fs.frame? v.frame = some f ∧ f.get? v.name = none ∧
      gs = fs.replace (f.put v.name .uninitialized) v.frame := by
  rw [declare, bind_eq_ok]
  refine exists_congr fun f => ?_
  rw [frame_eq_ok]
  refine and_congr_right fun _ => ?_
  rw [Frame.contains]
  cases f.get? v.name with
  | some s => exact ⟨fun h => (nomatch h), fun h => (nomatch h.1)⟩
  | none => exact ⟨fun h => by cases h; exact ⟨rfl, rfl⟩, fun h => by rw [h.2]; rfl⟩

theorem assign_eq_ok (x : Value) :
    fs.assign v x = .ok gs ↔ ∃ f, fs.frame? v.frame = some f ∧
      gs = fs.replace (f.put v.name (.holds x)) v.frame := by
  rw [assign, bind_eq_ok]
  refine exists_congr fun f => ?_
  rw [frame_eq_ok, Except.ok.injEq, eq_comm (a := gs)]

/-- what is set is read -/
theorem read_of_assign (x : Value) (h : fs.assign v x = .ok gs) : gs.read v = .ok x := by
  obtain ⟨f, hf, rfl⟩ := (fs.assign_eq_ok gs v x).mp h
  have hs : (fs.replace (f.put v.name (.holds x)) v.frame).slot v = .ok (.holds x) :=
    (slot_eq_ok _ v _).mpr
      ⟨_, fs.frame?_replace_self _ f v.frame hf, f.get?_put_self v.name (.holds x)⟩
  rw [read, hs]
  rfl

theorem push_eq_ok :
    fs.push = .ok gs ↔ ∃ f, fs.temporary = some f ∧
      gs = { fs with locals := f :: fs.locals, temporary := none } := by
  rw [push]
  cases fs.temporary with
  | some f => exact ⟨fun h => ⟨f, rfl, by cases h; rfl⟩, fun ⟨_, hf, h⟩ => by cases hf; rw [h]⟩
  | none => exact ⟨fun h => (nomatch h), fun ⟨_, hf, _⟩ => (nomatch hf)⟩

theorem pop_eq_ok :
    fs.pop = .ok gs ↔ ∃ f outer, fs.locals = f :: outer ∧
      gs = { fs with locals := outer, temporary := some f } := by
  rw [pop]
  cases fs.locals with
  | cons f outer =>
    exact ⟨fun h => ⟨f, outer, rfl, by cases h; rfl⟩, fun ⟨_, _, hl, h⟩ => by cases hl; rw [h]⟩
  | nil => exact ⟨fun h => (nomatch h), fun ⟨_, _, hl, _⟩ => (nomatch hl)⟩

end
end Frames

/-! ## results that are not -/

theorem FailsWith.access {α : Type} {P : Cause → Prop} {r : Except AccessError α}
    (hr : FailsWith (fun e => P (.access e)) r) : FailsWith P (ofAccess r) := by
  cases r with
  | ok a => exact ok
  | error e => exact error (hr e rfl)

/-- what the error says of the frames is the case -/
def AccessError.Holds (fs : Frames) : AccessError → Prop
  | .missingFrame k => fs.frame? k = none
  | .undeclared v => ∃ f, fs.frame? v.frame = some f ∧ f.get? v.name = none
  | .uninitialized v => ∃ f, fs.frame? v.frame = some f ∧ f.get? v.name = some .uninitialized
  | .redefined v => ∃ f s, fs.frame? v.frame = some f ∧ f.get? v.name = some s

namespace Frames

section
variable (fs : Frames) (v : Var)

theorem frame_fails (k : FrameName) : FailsWith (AccessError.Holds fs) (fs.frame k) := by
  rw [frame]
  cases hk : fs.frame? k with
  | some f => exact FailsWith.ok
  | none => exact FailsWith.error hk

theorem slot_fails : FailsWith (AccessError.Holds fs) (fs.slot v) := by
  refine FailsWith.bind (frame_fails fs v.frame) fun f hf => ?_
  cases hs : f.get? v.name with
  | some s => exact FailsWith.ok
  | none => exact FailsWith.error ⟨f, (fs.frame_eq_ok _ _).mp hf, hs⟩

theorem require_fails : FailsWith (AccessError.Holds fs) (fs.require v) :=
  FailsWith.bind (slot_fails fs v) fun _ _ => FailsWith.ok

theorem read_fails : FailsWith (AccessError.Holds fs) (fs.read v) := by
  refine FailsWith.bind (slot_fails fs v) fun s hs => ?_
  cases s with
  | holds x => exact FailsWith.ok
  | uninitialized => exact FailsWith.error ((fs.slot_eq_ok _ _).mp hs)

theorem declare_fails : FailsWith (AccessError.Holds fs) (fs.declare v) := by
  refine FailsWith.bind (frame_fails fs v.frame) fun f hf => ?_
  split
  · next hc =>
    obtain ⟨s, hs⟩ := Option.isSome_iff_exists.mp hc
    exact FailsWith.error ⟨f, s, (fs.frame_eq_ok _ _).mp hf, hs⟩
  · exact FailsWith.ok

theorem assign_fails (x : Value) : FailsWith (AccessError.Holds fs) (fs.assign v x) :=
  FailsWith.bind (frame_fails fs v.frame) fun _ _ => FailsWith.ok

theorem push_fails : FailsWith (AccessError.Holds fs) fs.push := by
  rw [push]
  cases ht : fs.temporary with
  | some f => exact FailsWith.ok
  | none => exact FailsWith.error ht

theorem pop_fails : FailsWith (AccessError.Holds fs) fs.pop := by
  rw [pop]
  cases hl : fs.locals with
  | cons f outer => exact FailsWith.ok
  | nil => exact FailsWith.error (List.head?_eq_none_iff.mpr hl)

end
end Frames
end IPPcode24
