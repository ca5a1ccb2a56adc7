import IPPcode24.Proofs.Numbering
import Mathlib.Order.Bounds.Basic

/-!
# Programs from records in any order

A program is the records sorted by their numbers, if these are distinct.  The search for two equal
numbers looks at neighbours only, which is enough where the records are sorted.

* `Program.firstRepeat_eq_some`    **the first repeat of sorted records is the least number there is
                                   twice**
* `Program.ofRecords_eq_error`     so a program fails with the least number that occurs twice
* `Program.getElem?_eq_some_iff`   an index counts the records with smaller numbers
* `Program.ofRecords_of_perm`      **the records may come in any order**

Main statement, `Program.ofRecords_sorts`.
-/

namespace IPPcode24.Program

/-- the number is that of two records at least -/
def Repeated (rs : List Record) (k : Nat) : Prop := 2 ≤ (rs.map Record.order).count k

/-! ## numbers that occur twice -/

theorem Repeated.mem {rs : List Record} {k : Nat} (h : Repeated rs k) : k ∈ rs.map Record.order :=
  List.count_pos_iff.mp (Nat.lt_of_lt_of_le Nat.two_pos h)

theorem repeated_of_perm {rs qs : List Record} (h : qs.Perm rs) (k : Nat) :
    Repeated qs k ↔ Repeated rs k := by
  rw [Repeated, Repeated, (h.map Record.order).count_eq]

theorem nodup_iff_not_repeated (rs : List Record) :
    (rs.map Record.order).Nodup ↔ ∀ k, ¬ Repeated rs k := by
  rw [List.nodup_iff_count_le_one]
  exact forall_congr' fun k => by rw [Repeated, Nat.not_le, Nat.lt_succ_iff]

/-- a record with a number of its own makes no difference -/
theorem repeated_cons (r : Record) (rs : List Record) (h : r.order ∉ rs.map Record.order)
    (k : Nat) : Repeated (r :: rs) k ↔ Repeated rs k := by
  have hone : (rs.map Record.order).count r.order = 0 := List.count_eq_zero.mpr h
  rw [Repeated, Repeated, List.map_cons, List.count_cons]
  by_cases hk : r.order = k
  · rw [← hk, hone]
    simp
  · simp [hk]

theorem first_le (a : Record) (rs : List Record)
    (hs : (a :: rs).Pairwise fun a b => a.order ≤ b.order) : ∀ r ∈ a :: rs, a.order ≤ r.order :=
  List.forall_mem_cons.mpr ⟨Nat.le_refl _, (List.pairwise_cons.mp hs).1⟩

/-- the first repeat is the least of the numbers that occur twice -/
theorem isLeast_of_firstRepeat (rs : List Record) (hs : rs.Pairwise fun a b => a.order ≤ b.order)
    (k : Nat) (h : firstRepeat rs = some k) : IsLeast {k | Repeated rs k} k := by
  induction rs with
  | nil => cases h
  | cons a rs ih =>
    cases rs with
    | nil => cases h
    | cons b rs =>
      have ha := first_le a (b :: rs) hs
      have hs := (List.pairwise_cons.mp hs).2
      rw [firstRepeat] at h
      split at h
      · next hab =>
        cases h
        refine ⟨?_, fun j hj => ?_⟩
        · show 2 ≤ List.count _ (a.order :: b.order :: rs.map Record.order)
          rw [← hab, List.count_cons_self, List.count_cons_self]
          omega
        · obtain ⟨r, hr, rfl⟩ := List.mem_map.mp hj.mem
          exact ha r hr
      · next hab =>
        -- `a` is less than its neighbour, and so than all behind it
        have hlt : a.order < b.order :=
          Nat.lt_of_le_of_ne (ha b (List.mem_cons_of_mem a List.mem_cons_self)) hab
        have hnot : a.order ∉ (b :: rs).map Record.order := by
          intro hmem
          obtain ⟨r, hr, hra⟩ := List.mem_map.mp hmem
          have hbr := first_le b rs hs r hr
          omega
        have hsame : {k | Repeated (a :: b :: rs) k} = {k | Repeated (b :: rs) k} :=
          Set.ext fun j => repeated_cons a (b :: rs) hnot j
        rw [hsame]
        exact ih hs h

/-- **The first repeat of sorted records is the least number that occurs twice.** -/
theorem firstRepeat_eq_some (rs : List Record) (hs : rs.Pairwise fun a b => a.order ≤ b.order)
    (k : Nat) : firstRepeat rs = some k ↔ IsLeast {k | Repeated rs k} k := by
  refine ⟨isLeast_of_firstRepeat rs hs k, fun h => ?_⟩
  cases hr : firstRepeat rs with
  | none =>
    have hnodup : (rs.map Record.order).Nodup :=
      List.pairwise_map.mpr ((increasing_of_firstRepeat rs hs hr).imp Nat.ne_of_lt)
    exact absurd h.1 ((nodup_iff_not_repeated rs).mp hnodup k)
  | some j => rw [(isLeast_of_firstRepeat rs hs j hr).unique h]

theorem ofRecords_eq_error (rs : List Record) (d : Defect) : ofRecords rs = .error d ↔
    ∃ k, d = .duplicateOrder k ∧ IsLeast {k | Repeated rs k} k := by
  have hsame : {k | Repeated (sorted rs) k} = {k | Repeated rs k} :=
    Set.ext fun k => repeated_of_perm (perm_sorted rs) k
  simp only [← hsame, ← firstRepeat_eq_some _ (pairwise_sorted rs)]
  rw [ofRecords]
  split
  · next k hk => simp [hk, eq_comm]
  · next hk => simp [hk]

/-! ## the order of the records -/

/-- **The records may come in any order.** -/
theorem ofRecords_of_perm {rs qs : List Record} (h : qs.Perm rs) : ofRecords qs = ofRecords rs := by
  cases hr : ofRecords rs with
  | ok p =>
    have hp := (ofRecords_eq_ok rs p).mp hr
    rw [ofRecords_eq_ok]
    -- there is only one increasing list of these records
    refine (sorted_eq_of_perm qs _ (h.trans ?_) p.increasing).symm
    rw [hp]
    exact (perm_sorted rs).symm
  | error d =>
    obtain ⟨k, hd, hk⟩ := (ofRecords_eq_error rs d).mp hr
    have hsame : {k | Repeated qs k} = {k | Repeated rs k} := Set.ext fun k => repeated_of_perm h k
    exact (ofRecords_eq_error qs d).mpr ⟨k, hd, hsame ▸ hk⟩

/-- an index counts the records with smaller numbers -/
theorem getElem?_eq_some_iff (rs : List Record) (hs : rs.Pairwise fun a b => a.order < b.order)
    (i : Nat) (r : Record) :
    rs[i]? = some r ↔ r ∈ rs ∧ rs.countP (fun q => q.order < r.order) = i := by
  induction rs generalizing i with
  | nil => simp
  | cons a rs ih =>
    obtain ⟨ha, hs⟩ := List.pairwise_cons.mp hs
    have hfirst : (a :: rs).countP (fun q => q.order < a.order) = 0 := by
      refine List.countP_eq_zero.mpr fun q hq hlt => ?_
      rcases List.mem_cons.mp hq with rfl | hq
      · exact Nat.lt_irrefl _ (of_decide_eq_true hlt)
      · exact Nat.lt_asymm (ha q hq) (of_decide_eq_true hlt)
    have hrest : ∀ q ∈ rs, (a :: rs).countP (fun x => x.order < q.order)
        = rs.countP (fun x => x.order < q.order) + 1 := fun q hq =>
      List.countP_cons_of_pos (decide_eq_true (ha q hq))
    constructor
    · intro h
      cases i with
      | zero =>
        cases h
        exact ⟨List.mem_cons_self, hfirst⟩
      | succ i =>
        obtain ⟨hr, hi⟩ := (ih hs i).mp h
        exact ⟨List.mem_cons_of_mem a hr, by rw [hrest r hr, hi]⟩
    · rintro ⟨hr, rfl⟩
      rcases List.mem_cons.mp hr with rfl | hr
      · rw [hfirst]
        rfl
      · rw [hrest r hr]
        exact (ih hs _).mpr ⟨hr, rfl⟩

theorem exists_ofRecords_iff_nodup (rs : List Record) :
    (∃ p, ofRecords rs = .ok p) ↔ (rs.map Record.order).Nodup := by
  constructor
  · rintro ⟨p, hp⟩
    have hperm := (perm_sorted rs).map Record.order
    rw [← (ofRecords_eq_ok rs p).mp hp] at hperm
    exact hperm.nodup_iff.mp (List.pairwise_map.mpr (p.increasing.imp Nat.ne_of_lt))
  · intro h
    exact ⟨⟨(sorted rs).toArray, increasing_sorted rs h⟩, (ofRecords_eq_ok rs _).mpr rfl⟩

/-- **A program is its records sorted by their numbers.**  Records make a program exactly if their
numbers are distinct.  Its records are then the given ones, each of them once, with increasing
numbers, and the one at an index is that with so many smaller numbers.  Otherwise the least number
that occurs twice is reported.  Neither depends on the order in which the records come. -/
theorem ofRecords_sorts (rs : List Record) :
    ((∃ p, ofRecords rs = .ok p) ↔ (rs.map Record.order).Nodup) ∧
    (∀ p, ofRecords rs = .ok p → p.records.toList.Perm rs ∧
      (p.records.toList.Pairwise fun a b => a.order < b.order) ∧
      (∀ r ∈ rs, p.records.toList.count r = 1) ∧
      ∀ i r, p.get? i = some r ↔ r ∈ rs ∧ rs.countP (fun q => q.order < r.order) = i) ∧
    (∀ d, ofRecords rs = .error d ↔
      ∃ k, d = .duplicateOrder k ∧ IsLeast {k | 2 ≤ (rs.map Record.order).count k} k) ∧
    ∀ qs, qs.Perm rs → ofRecords qs = ofRecords rs := by
  refine ⟨exists_ofRecords_iff_nodup rs, fun p hp => ?_, ofRecords_eq_error rs,
    fun qs => ofRecords_of_perm⟩
  have hperm : p.records.toList.Perm rs := by
    rw [(ofRecords_eq_ok rs p).mp hp]
    exact perm_sorted rs
  have hnodup : p.records.toList.Nodup := p.increasing.imp fun hab h => by
    rw [h] at hab
    exact Nat.lt_irrefl _ hab
  refine ⟨hperm, p.increasing, fun r hr => ?_, fun i r => ?_⟩
  · exact List.count_eq_one_of_mem hnodup (hperm.mem_iff.mpr hr)
  · rw [get?, ← Array.getElem?_toList, getElem?_eq_some_iff _ p.increasing, hperm.mem_iff,
      hperm.countP_eq]

/-- records that come in reverse, and four with two numbers -/
theorem ofRecords_sorts_reversed :
    (∃ p, ofRecords [⟨20, .brk⟩, ⟨10, .ret⟩] = .ok p ∧ p.get? 0 = some ⟨10, .ret⟩) ∧
      ofRecords [⟨7, .ret⟩, ⟨5, .ret⟩, ⟨7, .brk⟩, ⟨5, .brk⟩] = .error (.duplicateOrder 5) ∧
      ofRecords [⟨5, .brk⟩, ⟨5, .ret⟩, ⟨7, .brk⟩, ⟨7, .ret⟩] = .error (.duplicateOrder 5) := by
  obtain ⟨hok, hprogram, _, _⟩ := ofRecords_sorts [⟨20, .brk⟩, ⟨10, .ret⟩]
  obtain ⟨p, hp⟩ := hok.mpr (by decide)
  obtain ⟨_, _, _, hget⟩ := hprogram p hp
  obtain ⟨_, _, herror, hperm⟩ :=
    ofRecords_sorts [⟨7, .ret⟩, ⟨5, .ret⟩, ⟨7, .brk⟩, ⟨5, .brk⟩]
  have hleast : IsLeast {k | 2 ≤ [7, 5, 7, 5].count k} 5 := by
    refine ⟨by decide, fun j hj => ?_⟩
    have hmem : j ∈ [7, 5, 7, 5] := List.count_pos_iff.mp (Nat.lt_of_lt_of_le Nat.two_pos hj)
    simp only [List.mem_cons, List.not_mem_nil, or_false] at hmem
    omega
  have hfive := (herror _).mpr ⟨5, rfl, hleast⟩
  exact ⟨⟨p, hp, (hget 0 _).mpr (by decide)⟩, hfive, (hperm _ (by decide)).trans hfive⟩

end IPPcode24.Program
