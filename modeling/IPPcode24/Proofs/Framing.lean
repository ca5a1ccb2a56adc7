import IPPcode24.Proofs.ReadBack
import Mathlib.Logic.ExistsUnique

/-!
# The lines of the input and the lines of a text

The input is cut into lines while it is bytes, a source text when it is characters.  Both ways give
the same lines, since a line feed is found in the bytes where it is in the text.  Bytes that are no
text are a line all the same.

* `Input.chomp s`             a line without its end
* `Input.segments_utf8`       **the lines of an input are those of its text**
* `Input.IsCut b ps`          `ps` is `b`, cut behind each line feed; `isCut_iff` says that this is
                              what the reader sees
* `Input.reads_behind`        **each read of a mix sees the next line**

Main statement, `Input.lines_agree`.
-/

namespace IPPcode24.Input

/-! ## the text of a line -/

/-- a line without a line feed at its end and a carriage return right before that -/
def chomp (s : List Char) : List Char :=
  if s.getLast? = some '\n' then dropReturn s.dropLast else s

theorem utf8_append_lf (s : List Char) : utf8 (s ++ ['\n']) = utf8 s ++ [0x0A] := utf8_append s _

/-- bytes end in a line feed where their text does -/
theorem getLast?_utf8 (s : List Char) :
    (utf8 s).getLast? = some 0x0A ↔ s.getLast? = some '\n' := by
  constructor
  · intro h
    rcases List.eq_nil_or_concat s with rfl | ⟨t, c, rfl⟩
    · cases h
    · have hne : String.utf8EncodeChar c ≠ [] := by
        rw [← List.length_pos_iff, String.length_utf8EncodeChar]
        exact Char.utf8Size_pos c
      have hc : utf8 [c] = String.utf8EncodeChar c := List.append_nil _
      rw [List.concat_eq_append, utf8_append, hc, List.getLast?_append_of_ne_nil _ hne] at h
      have hcode : c.toNat = '\n'.toNat :=
        toNat_of_mem_utf8EncodeChar c 0x0A (List.mem_of_getLast? h) (by decide)
      rw [List.concat_eq_append, List.getLast?_concat, Char.toNat_inj.mp hcode]
  · intro h
    obtain ⟨t, rfl⟩ := List.getLast?_eq_some_iff.mp h
    rw [utf8_append_lf, List.getLast?_concat]

theorem textOf_append_lf (p : Bytes) : textOf (p ++ [0x0A]) = (utf8? p).map dropReturn := by
  rw [textOf, if_pos List.getLast?_concat, List.dropLast_concat]

/-- a line that is text is its text without the end -/
theorem textOf_utf8 (s : List Char) : textOf (utf8 s) = some (chomp s) := by
  by_cases h : s.getLast? = some '\n'
  · obtain ⟨t, rfl⟩ := List.getLast?_eq_some_iff.mp h
    rw [utf8_append_lf, textOf_append_lf, utf8?_utf8, chomp, if_pos h, List.dropLast_concat]
    rfl
  · rw [textOf, if_neg (mt (getLast?_utf8 s).mp h), utf8?_utf8, chomp, if_neg h]

/-- what is no text is none without its line feed either -/
theorem textOf_eq (p : Bytes) : textOf p = (utf8? p).map chomp := by
  cases hp : utf8? p with
  | some s => rw [(utf8?_eq_some p s).mp hp, textOf_utf8]; rfl
  | none =>
    by_cases hlf : p.getLast? = some 0x0A
    · obtain ⟨q, rfl⟩ := List.getLast?_eq_some_iff.mp hlf
      rw [textOf_append_lf]
      cases hq : utf8? q with
      | none => rfl
      | some s =>
        rw [(utf8?_eq_some q s).mp hq, ← utf8_append_lf, utf8?_utf8] at hp
        cases hp
    · rw [textOf, if_neg hlf, hp]
      rfl

/-- **The lines of an input are those of its text.** -/
theorem segments_utf8 (s : List Char) : (segments (utf8 s)).map textOf = (lines s).map some := by
  induction s using cut_induction '\n' with
  | nil => rfl
  | last s hne hs =>
    have hb : 0x0A ∉ utf8 s := mt (lf_mem_utf8 s).mp hs
    have hchomp : chomp s = s := if_neg fun h => hs (List.mem_of_getLast? h)
    have hempty : utf8 s ≠ [] := by
      intro h
      have htext := utf8?_utf8 s
      rw [h] at htext
      exact hne (Option.some.inj (htext.symm.trans (utf8?_utf8 [])))
    rw [segments_of_not_mem _ hb hempty, lines_last s hs hne, List.map_singleton, textOf_utf8,
      hchomp]
    rfl
  | line p r hp ih =>
    -- no other character has the byte of a line feed, so both are cut at the same place
    have hb : 0x0A ∉ utf8 p := mt (lf_mem_utf8 p).mp hp
    have hcut : utf8 (p ++ '\n' :: r) = utf8 p ++ 0x0A :: utf8 r := utf8_append p _
    rw [hcut, segments_append_lf _ _ hb, lines_line p r hp, List.map_cons, List.map_cons, ih,
      textOf_append_lf, utf8?_utf8]
    rfl

theorem lineAt_utf8 (s : List Char) (k : Nat) : lineAt (utf8 s) k = (lines s)[k]? := by
  have h := congrArg (fun l => l[k]?) (segments_utf8 s)
  simp only [List.getElem?_map] at h
  rw [lineAt]
  cases hp : (segments (utf8 s))[k]? with
  | none =>
    rw [hp] at h
    exact (Option.map_eq_none_iff.mp h.symm).symm
  | some p =>
    rw [hp] at h
    cases hl : (lines s)[k]? with
    | none => rw [hl] at h; cases h
    | some l =>
      rw [hl] at h
      exact Option.some.inj h

/-! ## what the reader sees -/

/-- the bytes are cut behind each line feed, and nowhere else -/
structure IsCut (b : Bytes) (ps : List Bytes) : Prop where
  flatten : ps.flatten = b
  pieces : ∀ p ∈ ps, p ≠ [] ∧ 0x0A ∉ p.dropLast
  ends : ∀ p ∈ ps.dropLast, p.getLast? = some 0x0A

theorem isCut_last (b : Bytes) (hne : b ≠ []) (hb : 0x0A ∉ b) : IsCut b [b] := by
  refine ⟨List.flatten_singleton, fun p hp => ?_, fun p hp => (nomatch hp)⟩
  cases List.mem_singleton.mp hp
  exact ⟨hne, mt (List.dropLast_subset b ·) hb⟩

theorem isCut_line (p r : Bytes) (ps : List Bytes) (hp : 0x0A ∉ p) (h : IsCut r ps) :
    IsCut (p ++ 0x0A :: r) ((p ++ [0x0A]) :: ps) := by
  refine ⟨?_, List.forall_mem_cons.mpr ⟨?_, h.pieces⟩, ?_⟩
  · rw [List.flatten_cons, h.flatten, List.append_assoc]
    rfl
  · rw [List.dropLast_concat]
    exact ⟨List.concat_ne_nil 0x0A p, hp⟩
  · cases ps with
    | nil => exact fun q hq => (nomatch hq)
    | cons q ps =>
      rw [List.dropLast_cons_of_ne_nil (List.cons_ne_nil q ps)]
      exact List.forall_mem_cons.mpr ⟨List.getLast?_concat, h.ends⟩

theorem isCut_segments (b : Bytes) : IsCut b (segments b) := by
  refine cut_induction (0x0A : UInt8) ?_ (fun b hne hb => ?_) (fun p r hp ih => ?_) b
  · exact ⟨rfl, fun p hp => (nomatch hp), fun p hp => (nomatch hp)⟩
  · rw [segments_of_not_mem b hb hne]
    exact isCut_last b hne hb
  · rw [segments_append_lf p r hp]
    exact isCut_line p r _ hp ih

/-- there is one way to cut -/
theorem isCut_iff (b : Bytes) (ps : List Bytes) : IsCut b ps ↔ ps = segments b := by
  refine ⟨fun h => ?_, fun h => h ▸ isCut_segments b⟩
  induction ps generalizing b with
  | nil => rw [← h.flatten]; rfl
  | cons p ps ih =>
    obtain ⟨⟨hne, hp⟩, hps⟩ := List.forall_mem_cons.mp h.pieces
    have hflatten := h.flatten
    rw [List.flatten_cons] at hflatten
    by_cases hlf : p.getLast? = some 0x0A
    · obtain ⟨q, rfl⟩ := List.getLast?_eq_some_iff.mp hlf
      rw [List.dropLast_concat] at hp
      have hrest : IsCut ps.flatten ps := by
        refine ⟨rfl, hps, fun r hr => h.ends r ?_⟩
        cases ps with
        | nil => cases hr
        | cons r' ps =>
          rw [List.dropLast_cons_of_ne_nil (List.cons_ne_nil r' ps)]
          exact List.mem_cons_of_mem _ hr
      have hb : q ++ 0x0A :: ps.flatten = b := by
        rw [← hflatten, List.append_assoc]
        rfl
      rw [← hb, segments_append_lf q _ hp, ← ih ps.flatten hrest]
    · -- only the last piece may end without a line feed
      cases ps with
      | cons q ps =>
        refine absurd (h.ends p ?_) hlf
        rw [List.dropLast_cons_of_ne_nil (List.cons_ne_nil q ps)]
        exact List.mem_cons_self
      | nil =>
        have hnot : 0x0A ∉ p := by
          intro hmem
          rw [← List.dropLast_append_getLast hne, List.mem_append, List.mem_singleton] at hmem
          rcases hmem with hmem | hmem
          · exact hp hmem
          · exact hlf (by rw [List.getLast?_eq_some_getLast hne, ← hmem])
        rw [List.flatten_nil, List.append_nil] at hflatten
        rw [← hflatten, segments_of_not_mem p hnot hne]

/-- **Each read of a mix sees the next line.** -/
theorem reads_behind (ts : List Ty) (hts : ∀ t ∈ ts, t.takesLine = true) (b : Bytes) (j : Nat) :
    (reads ts (behind b j)).2 = behind b (j + ts.length) ∧
      ∀ k, (reads ts (behind b j)).1[k]? = ts[k]?.map fun t => valueOf t (lineAt b (j + k)) := by
  induction ts generalizing j with
  | nil => exact ⟨rfl, fun _ => rfl⟩
  | cons t ts ih =>
    obtain ⟨ht, hts⟩ := List.forall_mem_cons.mp hts
    obtain ⟨hrest, hvalues⟩ := ih hts (j + 1)
    rw [reads, read_behind t b j ht]
    refine ⟨?_, fun k => ?_⟩
    · rw [hrest, List.length_cons, Nat.add_right_comm, Nat.add_assoc]
    · cases k with
      | zero => rfl
      | succ k => rw [List.getElem?_cons_succ, hvalues, List.getElem?_cons_succ,
          Nat.add_right_comm, Nat.add_assoc]

/-- reads of strings give the lines of the text, and nothing behind the last one -/
theorem reads_strings (s : List Char) (n : Nat) : (reads (List.replicate n .string) (utf8 s)).1
    = ((lines s).map (fun l => Value.string (.ofList l)) ++ List.replicate n Value.nil).take n := by
  have hts : ∀ t ∈ List.replicate n Ty.string, t.takesLine = true := fun t ht =>
    (List.eq_of_mem_replicate ht) ▸ rfl
  obtain ⟨_, hvalues⟩ := reads_behind _ hts (utf8 s) 0
  rw [behind_zero] at hvalues
  refine List.ext_getElem? fun k => ?_
  rw [hvalues, Nat.zero_add, lineAt_utf8, List.getElem?_replicate, List.getElem?_take]
  by_cases hk : k < n
  · rw [if_pos hk, if_pos hk, Option.map_some, List.getElem?_append, List.length_map]
    by_cases hl : k < (lines s).length
    · rw [if_pos hl, List.getElem?_map, List.getElem?_eq_getElem hl]
      rfl
    · rw [if_neg hl, List.getElem?_replicate, if_pos (Nat.lt_of_le_of_lt (Nat.sub_le _ _) hk),
        List.getElem?_eq_none (Nat.le_of_not_lt hl)]
      rfl
  · rw [if_neg hk, if_neg hk]
    rfl

/-- what the read of an index sees: the text of a piece without its end, if there is such a piece
and it is text -/
def seen (ps : List Bytes) (k : Nat) : Option (List Char) :=
  ps[k]?.bind fun p => (utf8? p).map chomp

theorem lineAt_eq_seen (b : Bytes) (k : Nat) : lineAt b k = seen (segments b) k := by
  rw [lineAt, seen, funext textOf_eq]

/-- **The reader and the lines of a text agree.**  Reads of strings from an input that is a text
give the lines of that text in their order, and nothing ever after.  Any input is cut behind each
line feed in one way.  The next line is then the next piece, which is never empty, and what is behind
it is left: its text without a line feed at the end and a carriage return right before that, or
nothing if it is no text.  So each read of a mix sees the piece of its index, whatever became of
those before. -/
theorem lines_agree (b : Bytes) :
    (∀ s n, b = utf8 s → (reads (List.replicate n .string) b).1
      = ((lines s).map (fun l => Value.string (.ofList l)) ++ List.replicate n Value.nil).take n) ∧
    (∃! ps, IsCut b ps) ∧
    ∀ ps, IsCut b ps →
      (∀ k, line (ps.drop k).flatten = (seen ps k, (ps.drop (k + 1)).flatten)) ∧
      ∀ ts : List Ty, (∀ t ∈ ts, t.takesLine = true) →
        (reads ts b).2 = (ps.drop ts.length).flatten ∧
        ∀ k : Nat, (reads ts b).1[k]? = ts[k]?.map fun t => valueOf t (seen ps k) := by
  refine ⟨?_, ⟨segments b, isCut_segments b, fun ps h => (isCut_iff b ps).mp h⟩,
    fun ps hps => ?_⟩
  · rintro s n rfl
    exact reads_strings s n
  · cases (isCut_iff b ps).mp hps
    refine ⟨fun k => ?_, fun ts hts => ?_⟩
    · rw [← lineAt_eq_seen]
      exact line_behind b k
    · obtain ⟨hrest, hvalues⟩ := reads_behind ts hts b 0
      simp only [behind_zero, Nat.zero_add, lineAt_eq_seen] at hrest hvalues
      exact ⟨hrest, hvalues⟩

/-- a line that is no text, one that ends in a carriage return and a line feed, and a last one that
ends in a carriage return -/
theorem lines_agree_returns :
    let b : Bytes := [0xFF, 0x0A, 0x61, 0x0D, 0x0A, 0x62, 0x0D]
    let values := (reads [.int, .string, .string, .bool] b).1
    values[0]? = some .nil ∧ values[1]? = some (.string "a") ∧ values[2]? = some (.string "b\r") ∧
      values[3]? = some .nil ∧ line [0x61, 0x0D, 0x0A, 0x62, 0x0D] = (some ['a'], [0x62, 0x0D]) ∧
      (reads [.string, .string, .string, .string] (utf8 "a\r\n\nb\r".toList)).1
        = [.string "a", .string "", .string "b\r", .nil] := by
  intro b values
  have hcut : IsCut b [[0xFF, 0x0A], [0x61, 0x0D, 0x0A], [0x62, 0x0D]] :=
    ⟨rfl, by decide, by decide⟩
  obtain ⟨_, _, hframed⟩ := lines_agree b
  obtain ⟨hline, hreads⟩ := hframed _ hcut
  obtain ⟨_, hvalues⟩ := hreads [.int, .string, .string, .bool] (by decide)
  have htext := (lines_agree _).1 "a\r\n\nb\r".toList 4 rfl
  exact ⟨(hvalues 0).trans (by decide), (hvalues 1).trans (by decide),
    (hvalues 2).trans (by decide), (hvalues 3).trans (by decide), (hline 1).trans (by decide),
    htext.trans (by decide)⟩

end IPPcode24.Input
