import IPPcode24.Proofs.Labels
import IPPcode24.Proofs.Renaming

/-!
# Frames with other names

* `Frame.Renamed N r f g`      `g` holds the slots of `f` under the names that `r` gives them; all
                               names in `f` are among `N`
* `Frames.Renamed N r fs gs`   the same for all frames, one by one
* `Frames.Renamed.declare`, `assign`, `slot`, `read`, `require`, `push`, `pop`   frames with other
                               names serve other variables alike, where `r` keeps those of `N` apart
* `Frames.Renamed.eq_of_id`    frames whose names stay are the same
-/

namespace IPPcode24

/-! ## one frame -/

structure Frame.Renamed (N : Set String) (r : String → String) (f g : Frame) : Prop where
  within : ∀ name s, f.get? name = some s → name ∈ N
  slots : ∀ name s, g.get? name = some s ↔ ∃ old, r old = name ∧ f.get? old = some s

namespace Frame

theorem Renamed.empty (N : Set String) (r : String → String) :
    Renamed N r Frame.empty Frame.empty where
  within _ _ h := (nomatch h)
  slots _ _ := ⟨fun h => (nomatch h), fun ⟨_, _, h⟩ => (nomatch h)⟩

section
variable {N : Set String} {r : String → String} (hr : Set.InjOn r N) {f g : Frame}
  (h : Renamed N r f g) (name : String) (hname : name ∈ N)
include hr h hname

theorem Renamed.get?_eq : g.get? (r name) = f.get? name := by
  refine Option.ext fun s => (h.slots _ s).trans ⟨?_, fun hs => ⟨name, rfl, hs⟩⟩
  rintro ⟨old, hold, hs⟩
  rwa [← hr (h.within old s hs) hname hold]

theorem Renamed.put (s : Slot) : Renamed N r (f.put name s) (g.put (r name) s) where
  within other t ht := by
    by_cases ho : other = name
    · exact ho ▸ hname
    · rw [get?_put_of_ne f name other s ho] at ht
      exact h.within other t ht
  slots other t := by
    by_cases ho : other = r name
    · -- an old name that becomes this one is `name`, as the names of `f` are kept apart
      rw [ho, get?_put_self]
      constructor
      · exact fun ht => ⟨name, rfl, (get?_put_self f name s).trans ht⟩
      · rintro ⟨old, hold, ht⟩
        by_cases hn : old = name
        · rwa [hn, get?_put_self] at ht
        · rw [get?_put_of_ne f name old s hn] at ht
          exact absurd (hr (h.within old t ht) hname hold) hn
    · rw [get?_put_of_ne g (r name) other s ho, h.slots]
      refine exists_congr fun old => and_congr_right fun hold => ?_
      have hn : old ≠ name := by
        rintro rfl
        exact ho hold.symm
      rw [get?_put_of_ne f name old s hn]

end

/-- a frame is made of what is found in it -/
theorem eq_of_get? (f g : Frame) (h : ∀ name s, g.get? name = some s ↔ f.get? name = some s) :
    g = f := by
  have hmem : ∀ e, e ∈ g.slots ↔ e ∈ f.slots := by
    rintro ⟨name, s⟩
    rw [← lookup_eq_some_of_nodup _ g.nodup_names, ← lookup_eq_some_of_nodup _ f.nodup_names]
    exact h name s
  have hperm := (List.perm_ext_iff_of_nodup g.nodup_names.of_map f.nodup_names.of_map).mpr hmem
  obtain ⟨gs, hg⟩ := g
  obtain ⟨fs, hf⟩ := f
  have hslots : gs = fs :=
    hperm.eq_of_pairwise (fun a b _ _ hab hba => (String.lt_asymm hab hba).elim) hg hf
  subst hslots
  rfl

theorem Renamed.eq_of_id {N : Set String} {f g : Frame} (h : Renamed N id f g) : g = f :=
  eq_of_get? f g fun name s => (h.slots name s).trans
    ⟨fun ⟨_, hold, hs⟩ => hold ▸ hs, fun hs => ⟨name, rfl, hs⟩⟩

end Frame

/-! ## all frames -/

structure Frames.Renamed (N : Set String) (r : String → String) (fs gs : Frames) : Prop where
  global : fs.global.Renamed N r gs.global
  locals : List.Forall₂ (Frame.Renamed N r) fs.locals gs.locals
  temporary : Option.Rel (Frame.Renamed N r) fs.temporary gs.temporary

namespace Frames.Renamed

theorem empty (N : Set String) (r : String → String) : Renamed N r Frames.empty Frames.empty where
  global := .empty N r
  locals := .nil
  temporary := .none

theorem eq_of_id {N : Set String} {fs gs : Frames} (h : Renamed N id fs gs) : gs = fs := by
  have hlocals : fs.locals = gs.locals := by
    have hl := h.locals.imp fun _ _ hf => hf.eq_of_id.symm
    rwa [List.forall₂_eq_eq_eq] at hl
  have htemporary : gs.temporary = fs.temporary := by
    have ht := h.temporary
    generalize fs.temporary = o, gs.temporary = o' at ht ⊢
    cases ht with
    | none => rfl
    | some hf => rw [hf.eq_of_id]
  calc gs = ⟨gs.global, gs.locals, gs.temporary⟩ := rfl
    _ = fs := by rw [h.global.eq_of_id, ← hlocals, htemporary]

section
variable {N : Set String} {r : String → String} {fs gs : Frames} (h : Renamed N r fs gs)
include h

theorem frame? (k : FrameName) : Option.Rel (Frame.Renamed N r) (fs.frame? k) (gs.frame? k) := by
  cases k with
  | gf => exact .some h.global
  | lf =>
    have hl := h.locals
    rw [Frames.frame?, Frames.frame?]
    generalize fs.locals = ls, gs.locals = ls' at hl ⊢
    cases hl with
    | nil => exact .none
    | cons hf _ => exact .some hf
  | tf => exact h.temporary

theorem replace (f g : Frame) (hf : f.Renamed N r g) (k : FrameName) :
    Renamed N r (fs.replace f k) (gs.replace g k) := by
  obtain ⟨global, locals, temporary⟩ := fs
  obtain ⟨global', locals', temporary'⟩ := gs
  obtain ⟨hg, hl, ht⟩ := h
  cases k with
  | gf => exact ⟨hf, hl, ht⟩
  | lf =>
    cases hl with
    | nil => exact ⟨hg, .nil, ht⟩
    | cons _ hl => exact ⟨hg, .cons hf hl, ht⟩
  | tf =>
    cases ht with
    | none => exact ⟨hg, hl, .none⟩
    | some _ => exact ⟨hg, hl, .some hf⟩

theorem create : Renamed N r fs.create gs.create := ⟨h.global, h.locals, .some (.empty N r)⟩

end

/-! ### operations that may fail -/

section
variable {N : Set String} {ρ : Renaming} {fs gs : Frames} (h : Renamed N ρ.var fs gs)
include h

theorem frame (k : FrameName) :
    Alike (AccessError.rename ρ) (Frame.Renamed N ρ.var) (fs.frame k) (gs.frame k) := by
  have hf := h.frame? k
  rw [Frames.frame, Frames.frame]
  generalize fs.frame? k = o, gs.frame? k = o' at hf ⊢
  cases hf with
  | some hf => exact .ok _ _ hf
  | none => exact .error (AccessError.missingFrame k)

theorem push : Alike (AccessError.rename ρ) (Renamed N ρ.var) fs.push gs.push := by
  have ht := h.temporary
  rw [Frames.push, Frames.push]
  generalize fs.temporary = o, gs.temporary = o' at ht ⊢
  cases ht with
  | some hf => exact .ok _ _ ⟨h.global, .cons hf h.locals, .none⟩
  | none => exact .error (AccessError.missingFrame .tf)

theorem pop : Alike (AccessError.rename ρ) (Renamed N ρ.var) fs.pop gs.pop := by
  have hl := h.locals
  rw [Frames.pop, Frames.pop]
  generalize fs.locals = ls, gs.locals = ls' at hl ⊢
  cases hl with
  | cons hf hl => exact .ok _ _ ⟨h.global, hl, .some hf⟩
  | nil => exact .error (AccessError.missingFrame .lf)

variable (hρ : Set.InjOn ρ.var N) (v : Var) (hv : v.name ∈ N)
include hρ hv

theorem slot : Alike (AccessError.rename ρ) Eq (fs.slot v) (gs.slot (v.rename ρ)) := by
  refine (h.frame v.frame).bind fun f g hf => ?_
  rw [Var.rename, hf.get?_eq hρ v.name hv]
  cases f.get? v.name with
  | some s => exact .ok s s rfl
  | none => exact .error (AccessError.undeclared v)

theorem require : Alike (AccessError.rename ρ) Eq (fs.require v) (gs.require (v.rename ρ)) :=
  (h.slot hρ v hv).bind fun _ _ _ => .ok () () rfl

theorem read : Alike (AccessError.rename ρ) Eq (fs.read v) (gs.read (v.rename ρ)) := by
  refine (h.slot hρ v hv).bind ?_
  rintro s _ rfl
  cases s with
  | holds x => exact .ok x x rfl
  | uninitialized => exact .error (AccessError.uninitialized v)

theorem declare :
    Alike (AccessError.rename ρ) (Renamed N ρ.var) (fs.declare v) (gs.declare (v.rename ρ)) := by
  refine (h.frame v.frame).bind fun f g hf => ?_
  have hcontains : g.contains (v.rename ρ).name = f.contains v.name :=
    congrArg Option.isSome (hf.get?_eq hρ v.name hv)
  rw [hcontains]
  cases f.contains v.name with
  | true => exact .error (AccessError.redefined v)
  | false => exact .ok _ _ (h.replace _ _ (hf.put hρ v.name hv _) v.frame)

theorem assign (x : Value) :
    Alike (AccessError.rename ρ) (Renamed N ρ.var) (fs.assign v x) (gs.assign (v.rename ρ) x) :=
  (h.frame v.frame).bind fun _ _ hf => .ok _ _ (h.replace _ _ (hf.put hρ v.name hv _) v.frame)

end
end Frames.Renamed
end IPPcode24
