import Mathlib.Algebra.BigOperators.Group.List.Basic
import Mathlib.Data.List.TakeWhile
import Wiremux.ChatFrames
import Wiremux.SideChannels
import Wiremux.ToolRouting

set_option autoImplicit false

/-!
# Call routing of the Chat encoder

Function calls are numbered from 0 in the order they start; a custom call keeps
its own index. The trace of a run is a function of the event list, and two
calls share an index exactly when a custom index is below the number of
function calls.
-/
namespace Wiremux.ChatCalls
open JsonValue StreamEvents StreamEventEncoding StreamEventFrames EmittingRuns EncoderState
open ChatEncoder ChatFrames ToolRouting StreamEncoderPush SideChannels CallEvents

/-- Source indexes of the function calls, in the order they start. -/
def functionIndexes (evs : List IrStreamEvent) : List ℕ :=
  ((startsOf evs).filter fun c => !c.custom).map CallStart.index

def chatIndex (evs : List IrStreamEvent) (index : ℕ) : ℕ :=
  if index ∈ functionIndexes evs then (functionIndexes evs).idxOf index else index

def pieceOf? (evs : List IrStreamEvent) (ev : IrStreamEvent) : Option Piece :=
  match startOf? ev, fragmentOf? ev with
  | some c, _ => some ⟨chatIndex evs c.index, some c.id, some c.name, c.custom, ""⟩
  | none, some f => some ⟨chatIndex evs f.index, none, none, f.custom, f.text⟩
  | none, none => none

variable {evs before after : List IrStreamEvent} {ev : IrStreamEvent} {s t : StreamEncoder}

theorem functionIndexes_append (as bs : List IrStreamEvent) :
    functionIndexes (as ++ bs) = functionIndexes as ++ functionIndexes bs := by
  simp [functionIndexes]

theorem functionIndexes_nodup (h : CallsOrdered evs) : (functionIndexes evs).Nodup :=
  h.indexes.sublist ((List.filter_sublist).map CallStart.index)

theorem chatIndex_before (hevs : evs = before ++ after) {index : ℕ}
    (hmem : index ∈ functionIndexes before) :
    chatIndex evs index = (functionIndexes before).idxOf index := by
  subst hevs
  rw [chatIndex, functionIndexes_append, if_pos (List.mem_append_left _ hmem),
    List.idxOf_append_of_mem hmem]

theorem functionIndexes_other {before : List IrStreamEvent}
    (h : ∀ c ∈ startOf? ev, c.custom = true) :
    functionIndexes (before ++ [ev]) = functionIndexes before := by
  rw [functionIndexes_append]
  cases hstart : startOf? ev with
  | none => simp [functionIndexes, startsOf, hstart]
  | some c => simp [functionIndexes, startsOf, hstart, h c hstart]

theorem functionIndexes_function {before : List IrStreamEvent} {c : CallStart}
    (h : startOf? ev = some c) (hcustom : c.custom = false) :
    functionIndexes (before ++ [ev]) = functionIndexes before ++ [c.index] := by
  rw [functionIndexes_append]
  simp [functionIndexes, startsOf, h, hcustom]

theorem mem_functionIndexes {i : ℕ} :
    i ∈ functionIndexes evs ↔ ∃ c ∈ startsOf evs, c.custom = false ∧ c.index = i := by
  simp [functionIndexes, and_assoc]

theorem chatIndex_custom (h : CallsOrdered evs) {c : CallStart} (hc : c ∈ startsOf evs)
    (hcustom : c.custom = true) : chatIndex evs c.index = c.index := by
  refine if_neg fun hmem => ?_
  obtain ⟨d, hd, hfunction, hindex⟩ := mem_functionIndexes.mp hmem
  obtain rfl : d = c := List.inj_on_of_nodup_map h.indexes hd hc hindex
  rw [hcustom] at hfunction
  cases hfunction

theorem chatIndex_function (h : CallsOrdered evs) (hevs : evs = before ++ ev :: after)
    {c : CallStart} (hc : startOf? ev = some c) (hcustom : c.custom = false) :
    chatIndex evs c.index = (functionIndexes before).length := by
  have hfresh : c.index ∉ functionIndexes before := by
    intro hmem
    obtain ⟨d, hd, _, hindex⟩ := mem_functionIndexes.mp hmem
    exact h.fresh hevs hc d hd hindex
  have hindexes := @functionIndexes_function _ before _ hc hcustom
  rw [@chatIndex_before _ (before ++ [ev]) after (by simp [hevs]) _
    (by rw [hindexes]; simp), hindexes, List.idxOf_append_of_notMem hfresh]
  simp

structure Numbered (before : List IrStreamEvent) (s : StreamEncoder) : Prop where
  wire : s.wire = .chatCompletions
  slotted : Slotted (functionIndexes before) s.tools
  number : ∀ i ∈ functionIndexes before,
    s.tools.last i = some ((functionIndexes before).idxOf i)
  used : ∀ e, e ∈ s.tools.used ↔ e < (functionIndexes before).length
  next : s.tools.next = min (functionIndexes before).length u32Max

theorem Numbered.other (h : Numbered before s) (hstart : ∀ c ∈ startOf? ev, c.custom = true)
    (hwire : t.wire = s.wire) (htools : t.tools = s.tools) : Numbered (before ++ [ev]) t := by
  have hsame := @functionIndexes_other _ before hstart
  exact
    { wire := hwire.trans h.wire
      slotted := by rw [hsame, htools]; exact h.slotted
      number := by rw [hsame, htools]; exact h.number
      used := by rw [hsame, htools]; exact h.used
      next := by rw [hsame, htools]; exact h.next }

theorem firstFree_of_free {used : Finset ℕ} {n : ℕ} (h : n ∉ used) (fuel : ℕ) :
    firstFree used fuel n = n := by
  cases fuel with
  | zero => rfl
  | succ fuel => exact if_neg h

theorem functionIndexes_room (h : CallsOrdered evs) (hu32 : ∀ c ∈ startsOf evs, c.index ≤ u32Max)
    (hevs : evs = before ++ ev :: after) {c : CallStart} (hc : startOf? ev = some c)
    (hcustom : c.custom = false) : (functionIndexes before).length ≤ u32Max := by
  have hindexes := @functionIndexes_function _ before _ hc hcustom
  have hall : functionIndexes evs = functionIndexes before ++ c.index :: functionIndexes after := by
    rw [hevs, List.append_cons, functionIndexes_append, hindexes]
    simp
  have hsub : ∀ i ∈ functionIndexes evs, i ∈ List.range (u32Max + 1) := by
    intro i hi
    obtain ⟨d, hd, _, rfl⟩ := mem_functionIndexes.mp hi
    exact List.mem_range.mpr (Nat.lt_succ_of_le (hu32 d hd))
  have hlength := (List.subperm_of_subset (functionIndexes_nodup h) hsub).length_le
  rw [hall, List.length_append, List.length_cons, List.length_range] at hlength
  omega

theorem allocTool_chat (h : Numbered before s) (i : ℕ)
    (hroom : (functionIndexes before).length ≤ u32Max) :
    allocTool i s = ((functionIndexes before).length,
      { s with tools := s.tools.assign i (functionIndexes before).length }) := by
  have hnext : s.tools.next = (functionIndexes before).length := by
    rw [h.next, Nat.min_eq_left hroom]
  have hfree : (functionIndexes before).length ∉ s.tools.used := fun hused =>
    Nat.lt_irrefl _ ((h.used _).mp hused)
  simp only [allocTool, if_pos h.wire, hnext, firstFree_of_free hfree]

theorem Numbered.start (h : Numbered before s) {c : CallStart} (hc : startOf? ev = some c)
    (hcustom : c.custom = false) (hfresh : c.index ∉ functionIndexes before)
    (hroom : (functionIndexes before).length ≤ u32Max) :
    Numbered (before ++ [ev])
      { s with tools := s.tools.assign c.index (functionIndexes before).length } := by
  have hindexes := @functionIndexes_function _ before _ hc hcustom
  have hnotUsed : (functionIndexes before).length ∉ s.tools.used := fun hused =>
    Nat.lt_irrefl _ ((h.used _).mp hused)
  exact
    { wire := h.wire
      slotted := by rw [hindexes]; exact h.slotted.assign hfresh hnotUsed
      number := fun i hi => by
        rw [hindexes] at hi ⊢
        rcases List.mem_append.mp hi with hi | hi
        · have hne : i ≠ c.index := fun heq => hfresh (heq ▸ hi)
          simp only [assign_last_of_ne _ _ hne, h.number i hi, List.idxOf_append_of_mem hi]
        · obtain rfl : i = c.index := by simpa using hi
          simp only [assign_last, List.idxOf_append_of_notMem hfresh]
          simp
      used := fun e => by
        rw [hindexes, assign_used, Finset.mem_insert, h.used, List.length_append]
        simp only [List.length_cons, List.length_nil]
        omega
      next := by
        simp only [hindexes, ToolSlots.assign, h.next, satAdd, List.length_append,
          List.length_cons, List.length_nil]
        omega }

theorem Numbered.route (h : Numbered before s) {i : ℕ} (hi : i ∈ functionIndexes before)
    (hstart : ∀ c ∈ startOf? ev, c.custom = true) :
    ∃ tools, toolEnc i s = ((functionIndexes before).idxOf i, { s with tools := tools }) ∧
      Numbered (before ++ [ev]) { s with tools := tools } := by
  obtain ⟨tools, hroute, hslotted, hlast, hused, hnext⟩ := h.slotted.route hi (h.number i hi)
  refine ⟨tools, hroute, ?_⟩
  have hsame := @functionIndexes_other _ before hstart
  exact
    { wire := h.wire
      slotted := by rw [hsame]; exact hslotted
      number := by rw [hsame]; simp only [hlast]; exact h.number
      used := by rw [hsame]; simp only [hused]; exact h.used
      next := by rw [hsame]; simp only [hnext]; exact h.next }

theorem found_function (h : CallsOrdered evs) (hevs : evs = before ++ ev :: after) {f : Fragment}
    (hf : fragmentOf? ev = some f) (hcustom : f.custom = false) :
    f.index ∈ functionIndexes before := by
  obtain ⟨c, hc, hindex, hkind⟩ := h.found hevs hf
  exact mem_functionIndexes.mpr ⟨c, hc, hkind.trans hcustom, hindex⟩

theorem found_custom (h : CallsOrdered evs) (hevs : evs = before ++ ev :: after) {f : Fragment}
    (hf : fragmentOf? ev = some f) (hcustom : f.custom = true) :
    chatIndex evs f.index = f.index := by
  obtain ⟨c, hc, hindex, hkind⟩ := h.found hevs hf
  rw [← hindex]
  refine chatIndex_custom h ?_ (hkind.trans hcustom)
  rw [hevs]
  exact mem_startsOf_of_split hc

variable (sj : SerdeJson)

theorem chatEvent_traced (h : CallsOrdered evs) (hu32 : ∀ c ∈ startsOf evs, c.index ≤ u32Max)
    (hevs : evs = before ++ ev :: after) (hs : Numbered before s)
    (hwired : isWired .chatCompletions ev = true) :
    ∃ frames t, chatEvent sj ev s = .ok (frames, t) ∧ Numbered (before ++ [ev]) t ∧
      pieces frames = (pieceOf? evs ev).toList ∧ t.finished = s.finished := by
  have other : ∀ {t : StreamEncoder}, (∀ c ∈ startOf? ev, c.custom = true) → t.wire = s.wire →
      t.tools = s.tools → Numbered (before ++ [ev]) t := fun hstart hwire htools =>
    hs.other hstart hwire htools
  have noStart : startOf? ev = none → ∀ c ∈ startOf? ev, c.custom = true := by
    intro hnone c hc
    rw [hnone] at hc
    cases hc
  cases ev with
  | toolCallStart id name sig index =>
    have hroom := functionIndexes_room h hu32 hevs rfl rfl
    have hnumber := chatIndex_function h hevs rfl rfl
    have hfresh : index ∉ functionIndexes before := by
      intro hmem
      obtain ⟨d, hd, _, hindex⟩ := mem_functionIndexes.mp hmem
      exact h.fresh hevs rfl d hd hindex
    refine ⟨_, _, rfl, ?_, ?_, ?_⟩
    · rw [allocTool_chat hs index hroom]
      exact hs.start (c := ⟨id, name, index, false⟩) rfl rfl hfresh hroom
    · rw [allocTool_chat hs index hroom]
      simp only [pieceOf?, startOf?, hnumber]
      rfl
    · rw [allocTool_chat hs index hroom]
  | toolCallArgDelta delta index =>
    have hi := found_function h hevs (f := ⟨index, false, delta⟩) rfl rfl
    have hnumber := chatIndex_before hevs hi
    obtain ⟨tools, hroute, hnext⟩ := hs.route hi (noStart rfl)
    simp only at hroute hnumber
    refine ⟨_, _, rfl, ?_, ?_, ?_⟩
    · rw [hroute]
      exact hnext
    · rw [hroute]
      simp only [pieceOf?, startOf?, fragmentOf?, hnumber]
      rfl
    · rw [hroute]
  | customToolCallStart id name index =>
    have hc : ⟨id, name, index, true⟩ ∈ startsOf evs := by
      rw [hevs]
      simp [startsOf, startOf?]
    have hnumber := chatIndex_custom h hc rfl
    refine ⟨_, _, rfl, other (fun c hc => ?_) rfl rfl, ?_, rfl⟩
    · obtain rfl := Option.some.inj hc
      rfl
    · simp only [pieceOf?, startOf?, hnumber]
      rfl
  | customToolCallInputDelta delta index =>
    have hnumber := found_custom h hevs (f := ⟨index, true, delta⟩) rfl rfl
    refine ⟨_, _, rfl, other (noStart rfl) rfl rfl, ?_, rfl⟩
    simp only [pieceOf?, startOf?, fragmentOf?, hnumber]
    rfl
  | logprobs content refusal =>
    refine ⟨_, _, rfl, other (noStart rfl) rfl rfl, ?_, rfl⟩
    change pieces [unnamed (.object [("choices", .array [(Value.object [("index", 0),
      ("delta", .object [])]).insertSome "logprobs" (chatLogprobsValue content refusal)])])] = []
    cases chatLogprobsValue content refusal <;> rfl
  | diagnostics reason => cases hwired
  | container value => cases hwired
  | contextManagement value => cases hwired
  | stopSequence text => cases hwired
  | searchEntryPoint rendered => cases hwired
  | protocol itemType payload => cases hwired
  | unknown event raw => cases hwired
  | done => cases hwired
  | _ => exact ⟨_, _, rfl, other (noStart rfl) rfl rfl, rfl, rfl⟩

theorem pushChat_eq (s : StreamEncoder) (ev : IrStreamEvent) :
    ∃ created, pushChat sj s ev =
      (chatEvent sj ev (startChat { s with createdAt := created }).2).map fun r =>
        (((startChat { s with createdAt := created }).1 ++ r.1).map (attachChatDestModel r.2),
          r.2) := by
  cases ev <;> exact ⟨_, rfl⟩

theorem pushChat_traced (h : CallsOrdered evs) (hu32 : ∀ c ∈ startsOf evs, c.index ≤ u32Max)
    (hevs : evs = before ++ ev :: after) (hs : Numbered before s)
    (hwired : isWired .chatCompletions ev = true) :
    ∃ frames t, pushChat sj s ev = .ok (frames, t) ∧ Numbered (before ++ [ev]) t ∧
      pieces frames = (pieceOf? evs ev).toList ∧ t.finished = s.finished := by
  obtain ⟨created, hpush⟩ := pushChat_eq sj s ev
  have hstart : (startChat { s with createdAt := created }).2 =
      { s with createdAt := created, started := true } := by
    unfold startChat
    cases hstarted : s.started with
    | true => simp only [if_true, ← hstarted]
    | false => rfl
  have hnumbered : Numbered before { s with createdAt := created, started := true } :=
    ⟨hs.wire, hs.slotted, hs.number, hs.used, hs.next⟩
  obtain ⟨frames, t, hok, hnext, hpieces, hfinished⟩ :=
    chatEvent_traced sj h hu32 hevs hnumbered hwired
  rw [hpush, hstart, hok]
  refine ⟨_, t, rfl, hnext, ?_, hfinished⟩
  rw [pieces_attach, pieces_append, pieces_startChat, List.nil_append]
  exact hpieces

/-- The stream so far: its entries are those of the events before the end. -/
structure Traced (evs before : List IrStreamEvent) (out : List RawSse) (s : StreamEncoder) :
    Prop where
  ended : s.finished = before.any isDone
  running : s.finished = false → Numbered before s
  pieces : pieces out = (live before).filterMap (pieceOf? evs)

theorem live_of_running (h : before.any isDone = false) : live before = before := by
  refine List.takeWhile_eq_self_iff.mpr fun ev hev => ?_
  simpa using List.any_eq_false.mp h ev hev

theorem finish_traced {out : List RawSse} (h : Traced evs before out s) :
    pieces (finish sj s).1 = [] ∧ (finish sj s).2.finished = true := by
  unfold finish
  cases hfinished : s.finished with
  | true => exact ⟨rfl, by simpa using hfinished⟩
  | false =>
    have hwire : s.wire = .chatCompletions := (h.running hfinished).wire
    simp only [Bool.false_eq_true, if_false, hwire]
    exact ⟨pieces_finishChat _, rfl⟩

theorem push_traced {out : List RawSse} (h : CallsOrdered evs)
    (hu32 : ∀ c ∈ startsOf evs, c.index ≤ u32Max) (hevs : evs = before ++ ev :: after)
    (hplain : copiedVerbatim sj .chatCompletions ev = false) (hs : Traced evs before out s) :
    ∃ frames t, push sj s ev = .ok (frames, t) ∧
      Traced evs (before ++ [ev]) (out ++ frames) t := by
  have hlive := live_snoc before ev
  cases hfinished : s.finished with
  | true =>
    have hany : before.any isDone = true := hs.ended.symm.trans hfinished
    refine ⟨_, _, push_finished hfinished, ?_, fun hf => ?_, ?_⟩
    · simp [hfinished, hany]
    · rw [hfinished] at hf
      cases hf
    · rw [hlive, if_pos hany, List.append_nil]
      exact hs.pieces
  | false =>
    have hany : before.any isDone = false := hs.ended.symm.trans hfinished
    have hnumbered := hs.running hfinished
    have hwire := hnumbered.wire
    -- an event that goes on: its entry is added
    have grow : ∀ {frames : List RawSse} {t : StreamEncoder}, isDone ev = false →
        t.finished = s.finished → Numbered (before ++ [ev]) t →
        pieces frames = (pieceOf? evs ev).toList → Traced evs (before ++ [ev]) (out ++ frames) t := by
      intro frames t hdone hkept hnext hpieces
      refine ⟨?_, fun _ => hnext, ?_⟩
      · simp [hkept, hfinished, hany, hdone]
      · rw [hlive, if_neg (by simp [hany]), if_neg (by simp [hdone]), pieces_append, hs.pieces,
          live_of_running hany, hpieces, List.filterMap_append]
        cases hp : pieceOf? evs ev <;> simp [hp]
    have quiet : startOf? ev = none → fragmentOf? ev = none → pieceOf? evs ev = none := by
      intro hstart hfragment
      simp only [pieceOf?, hstart, hfragment]
    have skip : ∀ {t : StreamEncoder}, startOf? ev = none → t.wire = s.wire →
        t.tools = s.tools → Numbered (before ++ [ev]) t := by
      intro t hstart hw htools
      exact hnumbered.other (fun c hc => by rw [hstart] at hc; cases hc) hw htools
    cases push_cases hfinished (by rw [hwire]; exact hplain) with
    | @side itemType payload r hev hpush heffect =>
      subst hev
      rw [hpush]
      cases heffect with
      | @quiet t hside =>
        obtain ⟨c, m, r, g, p, rfl, _⟩ := hside
        exact ⟨_, _, rfl, grow rfl rfl (skip rfl rfl rfl) (by rw [quiet rfl rfl]; rfl)⟩
      | reasoning hother => rw [hwire] at hother; cases hother
      | citation hother => rw [hwire] at hother; cases hother
      | codePart hother => rw [hwire] at hother; cases hother
      | redacted blob hother => rw [hwire] at hother; cases hother
    | done hev hpush =>
      subst hev
      obtain ⟨hpieces, hended⟩ := finish_traced sj hs
      rw [hpush]
      refine ⟨(finish sj s).1, (finish sj s).2, rfl, ?_, fun hf => ?_, ?_⟩
      · simp [hended, isDone]
      · rw [hended] at hf
        cases hf
      · rw [hlive, if_neg (by simp [hany]), if_pos (show isDone .done = true from rfl),
          pieces_append, hpieces, List.append_nil, hs.pieces, live_of_running hany]
    | skipped hskip hpush =>
      obtain ⟨hstart, hfragment⟩ := skipped_noCall hskip
      have hdone : isDone ev = false := by cases ev <;> first | rfl | cases hskip
      rw [hpush]
      exact ⟨_, _, rfl, grow hdone rfl (skip hstart rfl rfl) (by rw [quiet hstart hfragment]; rfl)⟩
    | wired hwired hpush =>
      rw [hwire] at hwired
      obtain ⟨frames, t, hok, hnext, hpieces, hkept⟩ := pushChat_traced sj h hu32 hevs hnumbered hwired
      have hdone : isDone ev = false := by cases ev <;> first | rfl | cases hwired
      exact ⟨frames, t, by rw [hpush]; simpa only [pushWire, hwire] using hok,
        grow hdone hkept hnext hpieces⟩

theorem encodeStream_traced (model : String) (h : CallsOrdered evs)
    (hu32 : ∀ c ∈ startsOf evs, c.index ≤ u32Max)
    (hplain : ∀ ev ∈ evs, copiedVerbatim sj .chatCompletions ev = false) :
    ∃ frames, encodeStream sj .chatCompletions model evs = .ok frames ∧
      pieces frames = (live evs).filterMap (pieceOf? evs) := by
  have hnew : Traced evs [] [] (StreamEncoder.new .chatCompletions model) :=
    { ended := rfl
      running := fun _ =>
        { wire := rfl
          slotted := Slotted.new
          number := fun i hi => by cases hi
          used := fun e => by simp [StreamEncoder.new, functionIndexes]
          next := rfl }
      pieces := rfl }
  obtain ⟨out, t, hrun, htraced⟩ := runAll_invariant (G := fun _ _ => True) (Traced evs)
    (.of_forall (push sj) (StreamEncoder.new .chatCompletions model) evs fun _ _ _ => trivial) hnew
    fun before ev after out t hevs hs _ =>
      push_traced sj h hu32 hevs (hplain ev (by simp [hevs])) hs
  refine ⟨out ++ (finish sj t).1, by simp only [encodeStream, hrun, Except.map], ?_⟩
  rw [pieces_append, (finish_traced sj htraced).1, List.append_nil]
  exact htraced.pieces

def fragmentPiece (evs : List IrStreamEvent) (f : Fragment) : Piece :=
  ⟨chatIndex evs f.index, none, none, f.custom, f.text⟩

/-- Among events that start no call at the chat index of `i`, its entries are
the fragments at `i`. -/
theorem entries_fragments {xs : List IrStreamEvent} {i : ℕ}
    (hstarts : ∀ c ∈ startsOf xs, chatIndex evs c.index ≠ chatIndex evs i)
    (hfragments : ∀ f ∈ xs.filterMap fragmentOf?,
      chatIndex evs f.index = chatIndex evs i → f.index = i) :
    (xs.filterMap (pieceOf? evs)).filter (fun p => p.index = chatIndex evs i) =
      ((xs.filterMap fragmentOf?).filter (fun f => f.index = i)).map (fragmentPiece evs) := by
  induction xs with
  | nil => rfl
  | cons ev xs ih =>
    have hrest := ih
      (fun c hc => hstarts c (by
        rw [show ev :: xs = [ev] ++ xs from rfl, startsOf_append]
        exact List.mem_append_right _ hc))
      (fun f hf => hfragments f (by
        rw [show ev :: xs = [ev] ++ xs from rfl, List.filterMap_append]
        exact List.mem_append_right _ hf))
    rw [List.filterMap_cons, List.filterMap_cons]
    cases hstart : startOf? ev with
    | some c =>
      have hnone : fragmentOf? ev = none := by cases ev <;> first | rfl | cases hstart
      have hne := hstarts c (by simp [startsOf, hstart])
      simp only [pieceOf?, hstart, hnone]
      rw [List.filter_cons, if_neg (by simpa using hne)]
      exact hrest
    | none =>
      cases hfragment : fragmentOf? ev with
      | none =>
        simp only [pieceOf?, hstart, hfragment]
        exact hrest
      | some f =>
        have hback := hfragments f (by simp [hfragment])
        simp only [pieceOf?, hstart, hfragment, List.filter_cons]
        by_cases hi : f.index = i
        · simp only [hi, decide_true, if_true, List.map_cons, hrest, fragmentPiece]
        · have hne : chatIndex evs f.index ≠ chatIndex evs i := fun heq => hi (hback heq)
          simp only [hi, hne, decide_false, Bool.false_eq_true, if_false, hrest]

def openingPiece (evs : List IrStreamEvent) (c : CallStart) : Piece :=
  ⟨chatIndex evs c.index, some c.id, some c.name, c.custom, ""⟩

/-- A call that shares its chat index with no other: its entries are the opening
one and its fragments. -/
theorem entries_call (h : CallsOrdered evs) (hevs : evs = before ++ after) {c : CallStart}
    (hc : c ∈ startsOf before)
    (hapart : ∀ d ∈ startsOf before, chatIndex evs d.index = chatIndex evs c.index →
      d.index = c.index) :
    ∃ fs : List Fragment, (before.filterMap (pieceOf? evs)).filter
        (fun p => p.index = chatIndex evs c.index) =
          openingPiece evs c :: fs.map (fragmentPiece evs) ∧
      joined (fs.map Fragment.text) = fragmentsAt c.index before := by
  obtain ⟨ev, hev, hstart⟩ := List.mem_filterMap.mp hc
  obtain ⟨a, b, hsplit⟩ := List.append_of_mem hev
  have hall : evs = a ++ ev :: (b ++ after) := by simp [hevs, hsplit]
  have hinBefore : ∀ d, d ∈ startsOf a ∨ d ∈ startsOf b → d ∈ startsOf before := by
    intro d hd
    rw [hsplit, startsOf_append, show ev :: b = [ev] ++ b from rfl, startsOf_append]
    simp only [List.mem_append]
    exact hd.imp id Or.inr
  have hlater : ∀ d ∈ startsOf b, d.index ≠ c.index := by
    have hnodup := h.indexes
    rw [hall, startsOf_append, List.map_append, show ev :: (b ++ after) = [ev] ++ (b ++ after)
      from rfl, startsOf_append, startsOf_single, hstart, startsOf_append] at hnodup
    have htail := (List.nodup_append.mp hnodup).2.1
    intro d hd heq
    rw [Option.toList_some, List.map_append, List.map_cons, List.map_nil, List.singleton_append,
      List.nodup_cons] at htail
    refine htail.1 ?_
    rw [List.map_append, ← heq]
    exact List.mem_append_left _ (List.mem_map_of_mem hd)
  -- a fragment at the chat index is a fragment of the call
  have hback : ∀ f ∈ before.filterMap fragmentOf?,
      chatIndex evs f.index = chatIndex evs c.index → f.index = c.index := by
    intro f hf heq
    obtain ⟨e, he, hfe⟩ := List.mem_filterMap.mp hf
    obtain ⟨b₁, b₂, hbefore⟩ := List.append_of_mem he
    obtain ⟨d, hd, hindex, _⟩ := @CallsOrdered.found _ b₁ (b₂ ++ after) _ h
      (by simp [hevs, hbefore]) _ hfe
    rw [← hindex] at heq ⊢
    refine hapart d ?_ heq
    rw [hbefore]
    exact mem_startsOf_of_split hd
  have hfragMem : ∀ f, f ∈ a.filterMap fragmentOf? ∨ f ∈ b.filterMap fragmentOf? →
      f ∈ before.filterMap fragmentOf? := by
    intro f hf
    rw [hsplit, List.filterMap_append, show ev :: b = [ev] ++ b from rfl, List.filterMap_append]
    simp only [List.mem_append]
    exact hf.imp id Or.inr
  have hentriesA := entries_fragments (i := c.index)
    (fun d hd heq => h.fresh hall hstart d hd (hapart d (hinBefore d (Or.inl hd)) heq))
    (fun f hf => hback f (hfragMem f (Or.inl hf)))
  have hentriesB := entries_fragments (i := c.index)
    (fun d hd heq => hlater d hd (hapart d (hinBefore d (Or.inr hd)) heq))
    (fun f hf => hback f (hfragMem f (Or.inr hf)))
  rw [h.early_fragments hall hstart] at hentriesA
  refine ⟨(b.filterMap fragmentOf?).filter (fun f => f.index = c.index), ?_, ?_⟩
  · rw [hsplit, List.filterMap_append, List.filter_append, hentriesA, List.filterMap_cons]
    simp only [pieceOf?, hstart]
    rw [List.map_nil, List.nil_append, List.filter_cons, if_pos (by simp), hentriesB]
    rfl
  · have hnone : fragmentOf? ev = none := by cases ev <;> first | rfl | cases hstart
    rw [hsplit, fragmentsAt_append, h.no_early_fragment hall hstart,
      show ev :: b = [ev] ++ b from rfl, fragmentsAt_append, fragmentsAt_single_none _ hnone]
    simp [fragmentsAt]

/-- What a client that merges by `index` reads: each call has an index of its
own, its first entry there states id and name, the entries after it add up to
its fragments, and there are no other entries. -/
def Routed (evs : List IrStreamEvent) (frames : List RawSse) : Prop :=
  ∃ place : ℕ → ℕ,
    (∀ c ∈ startsOf evs, ∀ d ∈ startsOf evs, place c.index = place d.index → c.index = d.index) ∧
    (∀ c ∈ startsOf evs, ∃ rest, piecesAt frames (place c.index) =
        ⟨place c.index, some c.id, some c.name, c.custom, ""⟩ :: rest ∧
      (∀ p ∈ rest, p.id = none ∧ p.name = none) ∧
      joined (rest.map Piece.text) = fragmentsAt c.index evs) ∧
    ∀ p ∈ pieces frames, ∃ c ∈ startsOf evs, p.index = place c.index

/-- Nothing of a call comes after the end, and every custom call has an index
that the function calls do not reach. -/
def Separate (evs : List IrStreamEvent) : Prop :=
  (∀ ev ∈ late evs, isQuiet ev) ∧
    ∀ c ∈ startsOf evs, c.custom = true → (functionIndexes evs).length ≤ c.index

instance (evs : List IrStreamEvent) : Decidable (Separate evs) :=
  inferInstanceAs (Decidable ((∀ ev ∈ late evs, _) ∧ ∀ c ∈ startsOf evs, _ → _))

theorem chatIndex_function_lt {i : ℕ} (hi : i ∈ functionIndexes evs) :
    chatIndex evs i < (functionIndexes evs).length := by
  rw [chatIndex, if_pos hi]
  exact List.idxOf_lt_length_of_mem hi

theorem Separate.apart (h : CallsOrdered evs) (hsep : Separate evs) {c d : CallStart}
    (hc : c ∈ startsOf evs) (hd : d ∈ startsOf evs)
    (heq : chatIndex evs c.index = chatIndex evs d.index) : c.index = d.index := by
  have hfunction : ∀ e ∈ startsOf evs, e.custom = false → e.index ∈ functionIndexes evs :=
    fun e he hcustom => mem_functionIndexes.mpr ⟨e, he, hcustom, rfl⟩
  cases hcc : c.custom <;> cases hdc : d.custom
  · have hci := hfunction c hc hcc
    rw [chatIndex, chatIndex, if_pos hci, if_pos (hfunction d hd hdc)] at heq
    exact (List.idxOf_inj hci).mp heq
  · have hlt := chatIndex_function_lt (hfunction c hc hcc)
    have hle := hsep.2 d hd hdc
    rw [heq, chatIndex_custom h hd hdc] at hlt
    omega
  · have hlt := chatIndex_function_lt (hfunction d hd hdc)
    have hle := hsep.2 c hc hcc
    rw [← heq, chatIndex_custom h hc hcc] at hlt
    omega
  · rwa [chatIndex_custom h hc hcc, chatIndex_custom h hd hdc] at heq

theorem startsOf_of_quiet {xs : List IrStreamEvent} (h : ∀ ev ∈ xs, isQuiet ev) :
    startsOf xs = [] :=
  List.filterMap_eq_nil_iff.mpr fun ev hev => (h ev hev).1

theorem fragmentsAt_of_quiet {xs : List IrStreamEvent} (h : ∀ ev ∈ xs, isQuiet ev) (i : ℕ) :
    fragmentsAt i xs = "" := by
  induction xs with
  | nil => rfl
  | cons ev xs ih =>
    have hhead := fragmentsAt_quiet i [] (h ev (by simp))
    have hrest := ih fun e he => h e (by simp [he])
    rw [List.nil_append] at hhead
    rw [show ev :: xs = [ev] ++ xs from rfl, fragmentsAt_append, hhead, hrest]
    rfl

theorem entries_placed (h : CallsOrdered evs) {p : Piece}
    (hp : p ∈ (live evs).filterMap (pieceOf? evs)) :
    ∃ c ∈ startsOf (live evs), p.index = chatIndex evs c.index := by
  obtain ⟨ev, hev, hpiece⟩ := List.mem_filterMap.mp hp
  cases hstart : startOf? ev with
  | some c =>
    simp only [pieceOf?, hstart] at hpiece
    obtain rfl := Option.some.inj hpiece
    exact ⟨c, List.mem_filterMap.mpr ⟨ev, hev, hstart⟩, rfl⟩
  | none =>
    cases hfragment : fragmentOf? ev with
    | none => simp [pieceOf?, hstart, hfragment] at hpiece
    | some f =>
      simp only [pieceOf?, hstart, hfragment] at hpiece
      obtain rfl := Option.some.inj hpiece
      obtain ⟨a, b, hsplit⟩ := List.append_of_mem hev
      obtain ⟨c, hc, hindex, _⟩ := h.found
        (by rw [← List.cons_append, ← List.append_assoc, ← hsplit, live_append_late]) hfragment
      refine ⟨c, ?_, by simp only [hindex]⟩
      rw [hsplit]
      exact mem_startsOf_of_split hc

theorem routed_of_separate {frames : List RawSse} (h : CallsOrdered evs) (hsep : Separate evs)
    (hframes : pieces frames = (live evs).filterMap (pieceOf? evs)) : Routed evs frames := by
  have hstarts : startsOf (live evs) = startsOf evs := by
    conv_rhs => rw [← live_append_late evs, startsOf_append, startsOf_of_quiet hsep.1]
    simp
  have hfragments : ∀ i, fragmentsAt i (live evs) = fragmentsAt i evs := by
    intro i
    conv_rhs => rw [← live_append_late evs, fragmentsAt_append, fragmentsAt_of_quiet hsep.1]
    simp
  refine ⟨chatIndex evs, fun c hc d hd => hsep.apart h hc hd, fun c hc => ?_, fun p hp => ?_⟩
  · obtain ⟨fs, hentries, htext⟩ := entries_call h
      (live_append_late evs).symm (hstarts ▸ hc) fun d hd heq =>
        hsep.apart h (hstarts ▸ hd) hc heq
    refine ⟨fs.map (fragmentPiece evs), ?_, ?_, ?_⟩
    · rw [piecesAt, hframes]
      exact hentries
    · intro p hp
      obtain ⟨f, _, rfl⟩ := List.mem_map.mp hp
      exact ⟨rfl, rfl⟩
    · rw [← hfragments, ← htext, List.map_map]
      rfl
  · rw [hframes] at hp
    obtain ⟨c, hc, hindex⟩ := entries_placed h hp
    exact ⟨c, hstarts ▸ hc, hindex⟩

theorem opening_indexes (xs : List IrStreamEvent) :
    (((xs.filterMap (pieceOf? evs)).filter fun p => p.id.isSome).map Piece.index) =
      (startsOf xs).map fun c => chatIndex evs c.index := by
  induction xs with
  | nil => rfl
  | cons ev xs ih =>
    rw [List.filterMap_cons, show ev :: xs = [ev] ++ xs from rfl, startsOf_append, startsOf_single]
    cases hstart : startOf? ev with
    | some c =>
      have hnone : fragmentOf? ev = none := by cases ev <;> first | rfl | cases hstart
      simpa [pieceOf?, hstart, hnone] using ih
    | none =>
      cases hfragment : fragmentOf? ev with
      | none => simpa [pieceOf?, hstart, hfragment] using ih
      | some f => simpa [pieceOf?, hstart, hfragment] using ih

theorem count_map_index (ps : List Piece) (b : ℕ) :
    (ps.map Piece.index).count b = (ps.filter fun p => p.index = b).length := by
  rw [List.count_eq_countP, List.countP_map, List.countP_eq_length_filter]
  congr 1

def textLength (ps : List Piece) (index : ℕ) : ℕ :=
  (joined ((ps.filter fun p => p.index = index).map Piece.text)).length

/-- When every call has its own index, the two numberings of the calls agree up
to order. -/
theorem places_perm {ps : List Piece} {place : ℕ → ℕ} {calls late : List CallStart}
    (hnodup : ((calls ++ late).map CallStart.index).Nodup)
    (hopen : (ps.filter fun p => p.id.isSome).map Piece.index =
      calls.map fun c => chatIndex evs c.index)
    (hinj : ∀ c ∈ calls ++ late, ∀ d ∈ calls ++ late, place c.index = place d.index →
      c.index = d.index)
    (honce : ∀ c ∈ calls ++ late, ((ps.filter fun p => p.index = place c.index).filter
      fun p => p.id.isSome).length = 1)
    (hplaced : ∀ p ∈ ps, ∃ c ∈ calls ++ late, p.index = place c.index) :
    (calls.map fun c => chatIndex evs c.index).Perm
      ((calls ++ late).map fun c => place c.index) ∧
      (calls.map fun c => chatIndex evs c.index).Nodup := by
  have hcount : ∀ c ∈ calls ++ late,
      (calls.map fun c => chatIndex evs c.index).count (place c.index) = 1 := by
    intro c hc
    rw [← hopen, count_map_index, List.filter_filter, ← honce c hc, List.filter_filter]
    congr 1
    exact List.filter_congr fun p _ => Bool.and_comm _ _
  have hmem : ∀ a ∈ calls.map fun c => chatIndex evs c.index,
      ∃ c ∈ calls ++ late, a = place c.index := by
    intro a ha
    rw [← hopen] at ha
    obtain ⟨p, hp, rfl⟩ := List.mem_map.mp ha
    exact hplaced p (List.mem_filter.mp hp).1
  have hnodupA : (calls.map fun c => chatIndex evs c.index).Nodup := by
    refine List.nodup_iff_count_le_one.mpr fun a => ?_
    by_cases ha : a ∈ calls.map fun c => chatIndex evs c.index
    · obtain ⟨c, hc, rfl⟩ := hmem a ha
      exact Nat.le_of_eq (hcount c hc)
    · rw [List.count_eq_zero_of_not_mem ha]
      exact Nat.zero_le _
  have hnodupB : ((calls ++ late).map fun c => place c.index).Nodup := by
    refine (List.Nodup.of_map _ hnodup).map_on ?_
    intro c hc d hd heq
    exact List.inj_on_of_nodup_map hnodup hc hd (hinj c hc d hd heq)
  refine ⟨(List.perm_ext_iff_of_nodup hnodupA hnodupB).mpr fun a => ⟨fun ha => ?_, fun ha => ?_⟩,
    hnodupA⟩
  · obtain ⟨c, hc, rfl⟩ := hmem a ha
    exact List.mem_map.mpr ⟨c, hc, rfl⟩
  · obtain ⟨c, hc, rfl⟩ := List.mem_map.mp ha
    refine List.count_pos_iff.mp ?_
    rw [hcount c hc]
    exact Nat.one_pos

theorem textLength_place {ps : List Piece} {index : ℕ} {c : CallStart} {rest : List Piece}
    (h : ps.filter (fun p => p.index = index) =
      ⟨index, some c.id, some c.name, c.custom, ""⟩ :: rest) :
    textLength ps index = (joined (rest.map Piece.text)).length := by
  simp [textLength, h]

theorem separate_of_routed {frames : List RawSse} (h : CallsOrdered evs)
    (hframes : pieces frames = (live evs).filterMap (pieceOf? evs)) (hrouted : Routed evs frames) :
    Separate evs := by
  obtain ⟨place, hinj, hcalls, hplaced⟩ := hrouted
  have hall : startsOf evs = startsOf (live evs) ++ startsOf (late evs) := by
    rw [← startsOf_append, live_append_late]
  have hnodup := h.indexes
  have honce : ∀ c ∈ startsOf evs, (((pieces frames).filter
      fun p => p.index = place c.index).filter fun p => p.id.isSome).length = 1 := by
    intro c hc
    obtain ⟨rest, hentries, hids, _⟩ := hcalls c hc
    rw [piecesAt] at hentries
    have hrest : rest.filter (fun p => p.id.isSome) = [] := by
      refine List.filter_eq_nil_iff.mpr fun p hp => ?_
      simp [(hids p hp).1]
    simp [hentries, hrest]
  rw [hall] at hnodup hinj honce hplaced
  have hopen := @opening_indexes evs (live evs)
  rw [← hframes] at hopen
  obtain ⟨hperm, hchat⟩ := places_perm hnodup hopen hinj honce hplaced
  -- no call starts after the end
  have hlate : startsOf (late evs) = [] := by
    have hlength := hperm.length_eq
    rw [List.length_map, List.length_map, List.length_append] at hlength
    exact List.length_eq_zero_iff.mp (by omega)
  rw [hlate, List.append_nil] at hall hperm
  rw [← hall] at hperm hchat
  have hapart : ∀ c ∈ startsOf evs, ∀ d ∈ startsOf evs,
      chatIndex evs c.index = chatIndex evs d.index → c = d := fun c hc d hd heq =>
    List.inj_on_of_nodup_map hchat hc hd heq
  -- the text sent for all calls is all their text before the end
  have hlengths : (startsOf evs).map (fun c => (fragmentsAt c.index (live evs)).length) =
      ((startsOf evs).map fun c => chatIndex evs c.index).map (textLength (pieces frames)) := by
    rw [List.map_map]
    refine List.map_congr_left fun c hc => ?_
    obtain ⟨fs, hentries, htext⟩ := entries_call h
      (live_append_late evs).symm (hall ▸ hc) fun d hd heq =>
        congrArg CallStart.index (hapart d (hall ▸ hd) c hc heq)
    rw [← hframes] at hentries
    rw [Function.comp, textLength_place hentries, ← htext, List.map_map]
    rfl
  have htotals : (startsOf evs).map (fun c => (fragmentsAt c.index evs).length) =
      ((startsOf evs).map fun c => place c.index).map (textLength (pieces frames)) := by
    rw [List.map_map]
    refine List.map_congr_left fun c hc => ?_
    obtain ⟨rest, hentries, _, htext⟩ := hcalls c hc
    rw [Function.comp, textLength_place hentries, htext]
  have hsum : ((startsOf evs).map fun c => (fragmentsAt c.index (live evs)).length).sum =
      ((startsOf evs).map fun c => (fragmentsAt c.index evs).length).sum := by
    rw [hlengths, htotals]
    exact (hperm.map _).sum_eq
  have hempty : ∀ c ∈ startsOf evs, fragmentsAt c.index (late evs) = "" := by
    have hsplit : ∀ i, (fragmentsAt i evs).length =
        (fragmentsAt i (live evs)).length + (fragmentsAt i (late evs)).length := by
      intro i
      rw [← String.length_append, ← fragmentsAt_append, live_append_late]
    simp only [hsplit, List.sum_map_add] at hsum
    have hzero : ((startsOf evs).map fun c => (fragmentsAt c.index (late evs)).length).sum = 0 := by
      omega
    intro c hc
    have hlength := List.sum_eq_zero_iff_forall_eq_nat.mp hzero _ (List.mem_map_of_mem hc)
    exact String.length_eq_zero_iff.mp hlength
  refine ⟨fun ev hev => ⟨?_, fun f hf => ?_⟩, fun c hc hcustom => ?_⟩
  · exact List.filterMap_eq_nil_iff.mp hlate ev hev
  · obtain ⟨a, b, hsplit⟩ := List.append_of_mem hev
    obtain ⟨c, hc, hindex, _⟩ := h.found
      (by rw [List.append_assoc, ← hsplit, live_append_late]) hf
    have hcall : c ∈ startsOf evs := by
      rw [← live_append_late evs, hsplit, ← List.append_assoc]
      exact mem_startsOf_of_split hc
    refine joined_eq_empty (hempty c hcall) f.text (List.mem_map_of_mem ?_)
    refine List.mem_filter.mpr ⟨List.mem_filterMap.mpr ⟨ev, hev, hf⟩, ?_⟩
    simp [hindex]
  · by_contra hlt
    have hlt' : c.index < (functionIndexes evs).length := Nat.lt_of_not_le hlt
    obtain ⟨d, hd, hfunction, hindex⟩ :=
      mem_functionIndexes.mp (List.getElem_mem hlt')
    have hnumber : chatIndex evs d.index = c.index := by
      rw [hindex, chatIndex, if_pos (List.getElem_mem hlt')]
      exact (functionIndexes_nodup h).idxOf_getElem _ _
    have heq := hapart d hd c hc (hnumber.trans (chatIndex_custom h hc hcustom).symm)
    rw [heq, hcustom] at hfunction
    cases hfunction

/-- The Chat encoder keeps calls apart exactly when no custom index is among
the numbers of the function calls and nothing of a call comes after the end. -/
theorem chat_calls_routed (model : String) (h : CallsOrdered evs)
    (hu32 : ∀ c ∈ startsOf evs, c.index ≤ u32Max)
    (hplain : ∀ ev ∈ evs, copiedVerbatim sj .chatCompletions ev = false) :
    (∃ frames, encodeStream sj .chatCompletions model evs = .ok frames ∧ Routed evs frames) ↔
      Separate evs := by
  obtain ⟨frames, hok, hframes⟩ := encodeStream_traced sj model h hu32 hplain
  constructor
  · rintro ⟨frames', hok', hrouted⟩
    obtain rfl : frames = frames' := Except.ok.inj (hok.symm.trans hok')
    exact separate_of_routed h hframes hrouted
  · intro hsep
    exact ⟨frames, hok, routed_of_separate h hsep hframes⟩

/-- Two function calls and a custom one above their numbers. -/
theorem chat_calls_routed_mixed :
    ∃ frames, encodeStream flatJson .chatCompletions "m" [.toolCallStart "a" "f" none 7,
        .customToolCallStart "b" "g" 2, .toolCallStart "c" "h" none 0, .toolCallArgDelta "[]" 7,
        .customToolCallInputDelta "x" 2] = .ok frames ∧
      Routed [.toolCallStart "a" "f" none 7, .customToolCallStart "b" "g" 2,
        .toolCallStart "c" "h" none 0, .toolCallArgDelta "[]" 7,
        .customToolCallInputDelta "x" 2] frames :=
  (chat_calls_routed flatJson "m" (by decide) (by decide) (by decide)).mpr (by decide)

/-- A custom call at index 0 and a function call that is numbered 0. -/
theorem chat_custom_collides :
    CallsOrdered [.customToolCallStart "a" "f" 0, .toolCallStart "b" "g" none 5] ∧
      ¬ ∃ frames, encodeStream flatJson .chatCompletions "m" [.customToolCallStart "a" "f" 0,
          .toolCallStart "b" "g" none 5] = .ok frames ∧
        Routed [.customToolCallStart "a" "f" 0, .toolCallStart "b" "g" none 5] frames := by
  refine ⟨by decide, ?_⟩
  rintro ⟨frames, hok, hrouted⟩
  obtain ⟨frames', hok', hframes⟩ := @encodeStream_traced
    [.customToolCallStart "a" "f" 0, .toolCallStart "b" "g" none 5] flatJson "m" (by decide)
    (by decide) (by decide)
  obtain rfl : frames' = frames := Except.ok.inj (hok'.symm.trans hok)
  exact absurd (separate_of_routed (by decide) hframes hrouted) (by decide)

end Wiremux.ChatCalls
