import IPPcode24.Proofs.Numbering
import IPPcode24.Proofs.RenamedFrames
import IPPcode24.Proofs.Store

/-!
# What BREAK reports

The slots of a frame may be kept in any order, such as that of the history in which they were set.
The report sorts them by name, and there is only one list of them that is sorted.  So it shows what
the frames hold and not how they came to hold it, and states that look alike have one report.

* `Frame.Lists f es`           the entries are those of the frame, in some order
* `Frame.after h`, `entriesAfter h`   a frame after slots were set, and its entries, the last one
                               set first
* `byName es`, `entriesText es`   entries sorted by name, and their text
* `Frame.Lists.byName_eq`      **all entries of a frame are sorted to the same list**
* `State.reportLines s order t`   the lines of a report in which the frames have the texts `t`
* `State.report_eq_lines`      **the report is made of the texts of the frames**
* `State.LooksLike s t`        what a report shows of the states is the same
* `State.LooksLike.report_eq`  **states that look alike have one report**
* `State.reported s b`         how a BREAK that writes `b` ends
* `Machine.step_brk`           a BREAK ends so with its report

Main statement, `Machine.report_canonical`.
-/

namespace IPPcode24

/-! ## the entries of a frame -/

/-- each declared variable is there once, with its slot -/
structure Frame.Lists (f : Frame) (es : List (String × Slot)) : Prop where
  nodup : (es.map Prod.fst).Nodup
  mem_iff : ∀ name s, (name, s) ∈ es ↔ f.get? name = some s

/-- the slots are set one after the other, the first entry first -/
def Frame.after (history : List (String × Slot)) : Frame :=
  history.foldl (fun f e => f.put e.1 e.2) Frame.empty

/-- the entries with that of a name set, which comes to the front -/
def setEntry (name : String) (s : Slot) (es : List (String × Slot)) : List (String × Slot) :=
  (name, s) :: es.filter fun e => e.1 != name

def entriesAfter (history : List (String × Slot)) : List (String × Slot) :=
  history.foldl (fun es e => setEntry e.1 e.2 es) []

/-- the entries sorted by name, those of one name in the order they came -/
def byName (es : List (String × Slot)) : List (String × Slot) :=
  es.mergeSort fun a b => decide (a.1 ≤ b.1)

def entriesText (es : List (String × Slot)) : String :=
  if es.isEmpty then "<empty>" else ", ".intercalate (es.map fun e => e.1 ++ "=" ++ e.2.text)

theorem Frame.text_eq (f : Frame) : f.text = entriesText f.slots := rfl

theorem Frame.lists_slots (f : Frame) : f.Lists f.slots where
  nodup := f.nodup_names
  mem_iff name s := (f.get?_eq_some name s).symm

theorem Frame.lists_empty : Frame.empty.Lists [] := Frame.empty.lists_slots

namespace Frame.Lists

variable {f : Frame} {es es' : List (String × Slot)}

/-- entries stay those of the frame when a slot is set -/
theorem put (h : f.Lists es) (name : String) (s : Slot) :
    (f.put name s).Lists (setEntry name s es) where
  nodup := by
    rw [setEntry, List.map_cons, List.nodup_cons]
    refine ⟨fun hmem => ?_, h.nodup.sublist (List.filter_sublist.map _)⟩
    obtain ⟨e, he, hname⟩ := List.mem_map.mp hmem
    exact bne_iff_ne.mp (List.mem_filter.mp he).2 hname
  mem_iff other t := by
    rw [setEntry, List.mem_cons, List.mem_filter, bne_iff_ne, Prod.mk.injEq, h.mem_iff]
    by_cases ho : other = name
    · rw [ho, f.get?_put_self, Option.some.injEq]
      simp [eq_comm]
    · rw [f.get?_put_of_ne name other s ho]
      simp [ho]

theorem perm (h : f.Lists es) (h' : f.Lists es') : es.Perm es' :=
  (List.perm_ext_iff_of_nodup h.nodup.of_map h'.nodup.of_map).mpr fun e =>
    (h.mem_iff e.1 e.2).trans (h'.mem_iff e.1 e.2).symm

theorem of_perm (h : f.Lists es) (hperm : es'.Perm es) : f.Lists es' where
  nodup := (hperm.map Prod.fst).nodup_iff.mpr h.nodup
  mem_iff name s := hperm.mem_iff.trans (h.mem_iff name s)

end Frame.Lists

/-- after any history, the entries are those of the frame -/
theorem Frame.lists_after (history : List (String × Slot)) :
    (Frame.after history).Lists (entriesAfter history) := by
  suffices hall : ∀ (f : Frame) es, f.Lists es →
      (history.foldl (fun f e => f.put e.1 e.2) f).Lists
        (history.foldl (fun es e => setEntry e.1 e.2 es) es) from hall _ _ Frame.lists_empty
  induction history with
  | nil => exact fun _ _ h => h
  | cons e history ih => exact fun f es h => ih _ _ (h.put e.1 e.2)

/-! ## the entries by name -/

theorem perm_byName (es : List (String × Slot)) : (byName es).Perm es := List.mergeSort_perm _ _

theorem pairwise_byName (es : List (String × Slot)) :
    (byName es).Pairwise fun a b => a.1 ≤ b.1 := by
  have h := @List.pairwise_mergeSort (String × Slot) (fun a b => decide (a.1 ≤ b.1))
    (fun a b c => by simpa using String.le_trans) (fun a b => by simpa using String.le_total _ _) es
  exact h.imp fun hab => of_decide_eq_true hab

/-- no name is there twice, so the names increase strictly -/
theorem increasing_byName (es : List (String × Slot)) (h : (es.map Prod.fst).Nodup) :
    (byName es).Pairwise fun a b => a.1 < b.1 := by
  have hnodup := ((perm_byName es).map Prod.fst).nodup_iff.mpr h
  refine ((pairwise_byName es).and (List.pairwise_map.mp hnodup)).imp ?_
  rintro a b ⟨hle, hne⟩
  exact String.not_le.mp fun hge => hne (String.le_antisymm hle hge)

/-- **All entries of a frame are sorted to the same list.** -/
theorem Frame.Lists.byName_eq {f : Frame} {es : List (String × Slot)} (h : f.Lists es) :
    byName es = f.slots := by
  have hperm : (byName es).Perm f.slots := (perm_byName es).trans (h.perm f.lists_slots)
  exact hperm.eq_of_pairwise (fun a b _ _ hab hba => (String.lt_asymm hab hba).elim)
    (increasing_byName es h.nodup) f.increasing

/-! ## the lines of a report -/

namespace State

variable (s : State) (order : Nat)

/-- the lines of a report in which the frames have these texts, if they are there -/
def reportLines (text : FrameName → Option String) : List String :=
  let m := s.memory
  let depth := " (depth " ++ countText m.frames.depth ++ ")"
  let top := m.data.head?.map fun v => " (top " ++ v.written ++ ")"
  [ "BREAK at instruction " ++ countText s.pc ++ " (order " ++ countText order ++ "), " ++
      countText s.executed ++ " executed",
    "GF: " ++ (text .gf).getD "<none>",
    "LF: " ++ ((text .lf).map fun t => t ++ depth).getD "<none>",
    "TF: " ++ (text .tf).getD "<none>",
    "data stack: " ++ countText m.data.length ++ top.getD "" ++
      ", call stack: " ++ countText m.calls.length ]

/-- the texts of the frames that there are -/
def frameText (k : FrameName) : Option String := (s.memory.frames.frame? k).map Frame.text

theorem localText_eq (fs : Frames) : localText fs = (((fs.frame? .lf).map Frame.text).map fun t =>
    t ++ (" (depth " ++ countText fs.depth ++ ")")).getD "<none>" := by
  rw [localText]
  cases fs.frame? .lf with
  | none => rfl
  | some f => simp [String.append_assoc]

theorem temporaryText_eq (fs : Frames) :
    temporaryText fs = ((fs.frame? .tf).map Frame.text).getD "<none>" := by
  rw [temporaryText]
  cases fs.frame? .tf <;> rfl

theorem topText_eq (data : List Value) :
    topText data = (data.head?.map fun v => " (top " ++ v.written ++ ")").getD "" := by
  cases data <;> rfl

/-- **The report is made of the texts of the frames.** -/
theorem report_eq_lines : s.report order =
    String.join ((s.reportLines order s.frameText).map fun line => line ++ "\n") := by
  have hglobal : (s.frameText .gf).getD "<none>" = s.memory.frames.global.text := rfl
  have hexecuted : " executed\n" = " executed" ++ "\n" := rfl
  unfold report reportLines
  dsimp only
  rw [localText_eq, temporaryText_eq, topText_eq, hglobal, hexecuted]
  simp only [frameText, List.map_cons, List.map_nil, String.join_cons, String.join_nil,
    String.append_assoc, String.append_empty]

end State

/-! ## states that look alike -/

/-- What a report shows of the states is the same: of the frames, which slots they have; of the
local ones only the innermost and their number, and of the data stack only its top and its
height. -/
structure State.LooksLike (s t : State) : Prop where
  pc : t.pc = s.pc
  executed : t.executed = s.executed
  frames : ∀ k,
    (t.memory.frames.frame? k).map Frame.get? = (s.memory.frames.frame? k).map Frame.get?
  depth : t.memory.frames.depth = s.memory.frames.depth
  data : t.memory.data.length = s.memory.data.length
  top : t.memory.data.head? = s.memory.data.head?
  calls : t.memory.calls.length = s.memory.calls.length

theorem Frame.get?_injective : Function.Injective Frame.get? := by
  intro g f h
  exact eq_of_get? f g fun name s => by rw [h]

namespace State

/-- frames that hold the same slots are the same frames -/
theorem LooksLike.frame? {s t : State} (h : s.LooksLike t) (k : FrameName) :
    t.memory.frames.frame? k = s.memory.frames.frame? k :=
  Option.map_injective Frame.get?_injective (h.frames k)

/-- **States that look alike have one report.** -/
theorem LooksLike.report_eq {s t : State} (h : s.LooksLike t) (order : Nat) :
    t.report order = s.report order := by
  have htext : t.frameText = s.frameText := by
    funext k
    rw [frameText, frameText, h.frame? k]
  rw [t.report_eq_lines, s.report_eq_lines, htext]
  simp only [reportLines, h.pc, h.executed, h.depth, h.data, h.top, h.calls]

/-- how a BREAK ends that writes `b`: only if all of it fits the run goes on -/
def reported (s : State) (b : Bytes) : Stepped :=
  if s.stderr.fits b then
    ⟨{ s with stderr := s.stderr.push b, pc := s.pc + 1, executed := s.executed + 1 }, none⟩
  else ⟨{ s with stderr := s.stderr.push b }, some ⟨s.pc, .channelFull⟩⟩

end State

theorem Machine.step_brk (m : Machine) (s : State) (r : Record) (hs : s.status = .running)
    (hr : m.program.get? s.pc = some r) (hi : r.instr = .brk) :
    m.step s = s.reported (utf8 (s.report r.order).toList) := by
  rw [m.step_of_get? s r hs hr, hi, Instr.effect_brk]
  generalize s.report r.order = text
  obtain ⟨memory, pc, executed, _, stdout, stderr⟩ := s
  cases hs
  rw [State.finish, State.reported, State.hasRoom, State.sink]
  cases stderr.fits (utf8 text.toList) <;> rfl

/-! ## the main statement -/

/-- **The report of BREAK is a canonical picture of the state.**  The entries of a frame, in
whatever order its history left them, are sorted by name to one list, which has each declared
variable once, with its slot, and in which the names increase strictly; it is the same for all
frames with the same slots.  The text of a frame is that of this list, and the report shows these
texts, a line for the global, the local and the temporary frame each, between the place and the
stacks.  So a BREAK writes the same bytes in all states that look alike, of one program or of two,
and if there is room for them it changes nothing but standard error, the place and the number of
instructions executed. -/
theorem Machine.report_canonical :
    (∀ history, (Frame.after history).Lists (entriesAfter history)) ∧
    (∀ f : Frame, f.Lists f.slots ∧ ∀ es, f.Lists es →
      f.Lists (byName es) ∧ ((byName es).Pairwise fun a b => a.1 < b.1) ∧
      f.text = entriesText (byName es) ∧
      ∀ (g : Frame) es', g.get? = f.get? → g.Lists es' → byName es' = byName es) ∧
    (∀ (s : State) order, s.report order =
      String.join ((s.reportLines order s.frameText).map fun line => line ++ "\n")) ∧
    ∀ (m m' : Machine) (s s' : State) (r r' : Record), s.status = .running →
      s'.status = .running → m.program.get? s.pc = some r → m'.program.get? s'.pc = some r' →
      r.instr = .brk → r'.instr = .brk → r'.order = r.order → s.LooksLike s' →
      let b := utf8 (s.report r.order).toList
      m.step s = s.reported b ∧ m'.step s' = s'.reported b ∧
        ((m.step s).fault = none → (m.step s).state =
          { s with stderr := s.stderr.push b, pc := s.pc + 1, executed := s.executed + 1 }) := by
  refine ⟨Frame.lists_after, fun f => ⟨f.lists_slots, fun es h => ?_⟩, State.report_eq_lines, ?_⟩
  · refine ⟨h.of_perm (perm_byName es), increasing_byName es h.nodup, ?_, fun g es' hg h' => ?_⟩
    · rw [f.text_eq, h.byName_eq]
    · rw [h'.byName_eq, h.byName_eq, Frame.get?_injective hg]
  · intro m m' s s' r r' hs hs' hr hr' hi hi' horder h b
    have hstep := m.step_brk s r hs hr hi
    have hstep' := m'.step_brk s' r' hs' hr' hi'
    rw [horder, h.report_eq] at hstep'
    refine ⟨hstep, hstep', fun hfault => ?_⟩
    rw [hstep, State.reported] at hfault ⊢
    split at hfault
    · next hfits => rw [if_pos hfits]
    · cases hfault

/-- declares the global variables in this order, sets `a` and reports -/
def breakAfter (names : List String) : Program :=
  .ofInstrs (names.map (fun name => .defVar ⟨.gf, name⟩) ++
    [.unary .move ⟨.gf, "a"⟩ (.literal (.int 7)), .brk])

/-- the same two variables in two orders -/
theorem Machine.report_canonical_orders :
    let es := [("b", Slot.uninitialized), ("a", .holds (.int 7))]
    let f := Frame.after es
    let m : Machine := ⟨breakAfter ["a", "b"], ⟨[]⟩, by decide +kernel⟩
    let m' : Machine := ⟨breakAfter ["b", "a"], ⟨[]⟩, by decide +kernel⟩
    let s := m.after 3 (.start [] (.new none) (.new none))
    let s' := m'.after 3 (.start [] (.new none) (.new (some 8)))
    let b := utf8 (s.report 4).toList
    f.Lists es ∧ entriesText (byName es) = "a=int@7, b=<uninitialized>" ∧
      s.report 4 = "BREAK at instruction 3 (order 4), 3 executed\nGF: a=int@7, b=<uninitialized>\n"
        ++ "LF: <none>\nTF: <none>\ndata stack: 0, call stack: 0\n" ∧
      s.LooksLike s' ∧ m.step s = s.reported b ∧ m'.step s' = s'.reported b := by
  intro es f m m' s s' b
  obtain ⟨hafter, hlisting, hlines, hbreaks⟩ := Machine.report_canonical
  have hlists : f.Lists es := (hafter es).of_perm (List.Perm.swap _ _ _)
  obtain ⟨_, _, htext, _⟩ := (hlisting f).2 es hlists
  have hmemory : s'.memory = s.memory := by decide +kernel
  have hlike : s.LooksLike s' := {
    pc := by decide +kernel
    executed := by decide +kernel
    frames := fun k => by rw [hmemory]
    depth := by rw [hmemory]
    data := by rw [hmemory]
    top := by rw [hmemory]
    calls := by rw [hmemory] }
  obtain ⟨hstep, hstep', _⟩ := hbreaks m m' s s' ⟨4, .brk⟩ ⟨4, .brk⟩ (by decide +kernel)
    (by decide +kernel) (by decide +kernel) (by decide +kernel) rfl rfl rfl hlike
  exact ⟨hlists, htext.symm.trans (by decide +kernel), (hlines s 4).trans (by decide +kernel),
    hlike, hstep, hstep'⟩

end IPPcode24
