import Wiremux.OrderedMap
import Wiremux.ToolAssembly

set_option autoImplicit false

/-!
# The assembler, one index at a time

What the assembler does with the calls of one index depends on that index
alone: it is idle, holds a start that is not whole, or has started.
-/
namespace Wiremux.AssemblerSlots
open Std.TreeMap (mem_toList_iff_getElem?_eq_some)
open StreamEvents ToolAssembly TerminalEvents OrderedMap

def isPartAt (i : ℕ) : IrStreamEvent → Bool
  | .toolCallStart _ _ _ index => index = i
  | .toolCallArgDelta _ index => index = i
  | _ => false

def partsAt (i : ℕ) (evs : List IrStreamEvent) : List IrStreamEvent := evs.filter (isPartAt i)

@[simp] theorem partsAt_nil (i : ℕ) : partsAt i [] = [] := rfl

@[simp] theorem partsAt_append (i : ℕ) (as bs : List IrStreamEvent) :
    partsAt i (as ++ bs) = partsAt i as ++ partsAt i bs := List.filter_append ..

def passed (evs : List IrStreamEvent) : List IrStreamEvent := evs.filter fun ev => !isFunctionCallPart ev

@[simp] theorem passed_append (as bs : List IrStreamEvent) :
    passed (as ++ bs) = passed as ++ passed bs := List.filter_append ..

theorem isPartAt_self {i : ℕ} {ev : IrStreamEvent} (h : isPartAt i ev = true) :
    isFunctionCallPart ev = true := by
  cases ev <;> first | rfl | cases h

inductive Slot where
  | idle
  | held (p : PendingToolStart)
  | started

namespace Slot

def flush : Slot → List IrStreamEvent × Slot
  | idle => ([], idle)
  | held p => (p.intoEvents, if p.isNamed then started else idle)
  | started => ([], started)

def merged (s : Slot) (id name : String) (thoughtSignature : Option String) (i : ℕ) :
    PendingToolStart :=
  match s with
  | held prev =>
    ⟨if id.isEmpty then prev.id else id, if name.isEmpty then prev.name else name,
      thoughtSignature.or prev.thoughtSignature, i, prev.args⟩
  | _ => ⟨id, name, thoughtSignature, i, []⟩

def pushStart (s : Slot) (id name : String) (thoughtSignature : Option String) (i : ℕ) :
    List IrStreamEvent × Slot :=
  match s with
  | started => ([], started)
  | s =>
    let pending := s.merged id name thoughtSignature i
    if pending.id.isEmpty || pending.name.isEmpty then ([], held pending)
    else (pending.intoEvents, started)

def pushArgs (s : Slot) (delta : String) (i : ℕ) : List IrStreamEvent × Slot :=
  match s with
  | idle => ([], held ⟨"", "", none, i, [delta]⟩)
  | held p => ([], held { p with args := p.args ++ [delta] })
  | started => ([.toolCallArgDelta delta i], started)

/-- The slot of the index `i`. -/
def push (i : ℕ) (s : Slot) (ev : IrStreamEvent) : List IrStreamEvent × Slot :=
  match ev with
  | .toolCallStart id name thoughtSignature index =>
    if index = i then s.pushStart id name thoughtSignature i else ([], s)
  | .toolCallArgDelta delta index => if index = i then s.pushArgs delta i else ([], s)
  | other => if isEnd other then s.flush else ([], s)

def pushAll (i : ℕ) (s : Slot) : List IrStreamEvent → List IrStreamEvent × Slot
  | [] => ([], s)
  | ev :: evs =>
    let pushed := push i s ev
    let rest := pushAll i pushed.2 evs
    (pushed.1 ++ rest.1, rest.2)

end Slot

variable {a : ToolCallAssembler} {i : ℕ}

/-- What is held is held under its own index, and only before the start. -/
def Keyed (a : ToolCallAssembler) : Prop :=
  ∀ i p, a.pending[i]? = some p → p.index = i ∧ i ∉ a.started

theorem keyed_new : Keyed {} := fun i p h => by simp at h

def slotOf (a : ToolCallAssembler) (i : ℕ) : Slot :=
  if i ∈ a.started then .started
  else
    match a.pending[i]? with
    | some p => .held p
    | none => .idle

theorem slotOf_started (h : i ∈ a.started) : slotOf a i = .started := if_pos h

theorem slotOf_held {p : PendingToolStart} (hkeyed : Keyed a) (h : a.pending[i]? = some p) :
    slotOf a i = .held p := by
  rw [slotOf, if_neg (hkeyed i p h).2, h]

theorem slotOf_idle (hstarted : i ∉ a.started) (h : a.pending[i]? = none) : slotOf a i = .idle := by
  rw [slotOf, if_neg hstarted, h]

theorem slotOf_congr {b : ToolCallAssembler} (hstarted : i ∈ b.started ↔ i ∈ a.started)
    (hpending : b.pending[i]? = a.pending[i]?) : slotOf b i = slotOf a i := by
  unfold slotOf
  rw [hpending]
  simp only [hstarted]

theorem partsAt_intoEvents (p : PendingToolStart) :
    partsAt i p.intoEvents = if p.index = i then p.intoEvents else [] := by
  unfold partsAt
  split
  · rename_i hindex
    rw [List.filter_eq_self]
    intro ev hev
    unfold PendingToolStart.intoEvents at hev
    rcases List.mem_append.mp hev with hev | hev
    · split at hev
      · rw [List.mem_singleton.mp hev]
        exact decide_eq_true hindex
      · cases hev
    · obtain ⟨delta, _, rfl⟩ := List.mem_map.mp hev
      exact decide_eq_true hindex
  · rename_i hindex
    rw [List.filter_eq_nil_iff]
    intro ev hev
    unfold PendingToolStart.intoEvents at hev
    rcases List.mem_append.mp hev with hev | hev
    · split at hev
      · rw [List.mem_singleton.mp hev]
        simpa [isPartAt] using hindex
      · cases hev
    · obtain ⟨delta, _, rfl⟩ := List.mem_map.mp hev
      simpa [isPartAt] using hindex

theorem flatMap_key {β γ : Type} {l : List (ℕ × β)} (hl : StrictBy Prod.fst l) (f : β → List γ) :
    l.flatMap (fun e => if e.1 = i then f e.2 else []) =
      ((l.find? fun e => e.1 = i).map fun e => f e.2).getD [] := by
  induction l with
  | nil => rfl
  | cons e rest ih =>
    obtain ⟨hhead, hrest⟩ := List.pairwise_cons.mp hl
    rw [List.flatMap_cons, List.find?_cons]
    by_cases he : e.1 = i
    · have hnone : rest.flatMap (fun e => if e.1 = i then f e.2 else []) = [] := by
        rw [List.flatMap_eq_nil_iff]
        intro x hx
        have hlt := hhead x hx
        rw [if_neg (by omega)]
      simp [he, hnone]
    · simp [he, ih hrest]

theorem partsAt_flush (hkeyed : Keyed a) :
    partsAt i a.flush.1 = (a.pending[i]?.map PendingToolStart.intoEvents).getD [] := by
  have hparts : ∀ e ∈ a.pending.toList, partsAt i e.2.intoEvents =
      if e.1 = i then e.2.intoEvents else [] := by
    intro e he
    rw [partsAt_intoEvents, (hkeyed e.1 e.2 (mem_toList_iff_getElem?_eq_some.mp he)).1]
  have hflush : partsAt i a.flush.1 =
      a.pending.toList.flatMap fun e => if e.1 = i then e.2.intoEvents else [] := by
    rw [ToolCallAssembler.flush, partsAt, List.filter_flatMap, List.flatMap_map]
    exact List.flatMap_congr hparts
  rw [hflush, flatMap_key (strictBy_toList a.pending)]
  cases hfind : a.pending.toList.find? fun e => e.1 = i with
  | none =>
    have hnone : a.pending[i]? = none := by
      rw [Option.eq_none_iff_forall_ne_some]
      intro p hp
      have hmem := mem_toList_iff_getElem?_eq_some.mpr hp
      have hkey := List.find?_eq_none.mp hfind (i, p) hmem
      simp at hkey
    rw [hnone]
    rfl
  | some e =>
    have hkey : e.1 = i := by simpa using List.find?_some hfind
    have hmem := List.mem_of_find?_eq_some hfind
    have hget : a.pending[i]? = some e.2 := mem_toList_iff_getElem?_eq_some.mp (hkey ▸ hmem)
    rw [hget]
    rfl

theorem passed_flush : passed a.flush.1 = [] := by
  unfold passed
  rw [List.filter_eq_nil_iff]
  intro ev hev
  rw [mem_flush hev]
  simp

theorem keyed_flush : Keyed a.flush.2 := fun i p h => by
  simp [ToolCallAssembler.flush] at h

theorem mem_started_flush (hkeyed : Keyed a) : i ∈ a.flush.2.started ↔
    i ∈ a.started ∨ ∃ p, a.pending[i]? = some p ∧ p.isNamed = true := by
  simp only [ToolCallAssembler.flush, Finset.mem_union, List.mem_toFinset, List.mem_map,
    List.mem_filter]
  refine or_congr Iff.rfl ?_
  constructor
  · rintro ⟨p, ⟨⟨e, he, rfl⟩, hnamed⟩, rfl⟩
    have hget := mem_toList_iff_getElem?_eq_some.mp (show (e.1, e.2) ∈ a.pending.toList from he)
    rw [(hkeyed e.1 e.2 hget).1]
    exact ⟨e.2, hget, hnamed⟩
  · rintro ⟨p, hget, hnamed⟩
    exact ⟨p, ⟨⟨(i, p), mem_toList_iff_getElem?_eq_some.mpr hget, rfl⟩, hnamed⟩, (hkeyed i p hget).1⟩

theorem slotOf_flush (hkeyed : Keyed a) : slotOf a.flush.2 i = (slotOf a i).flush.2 := by
  have hpending : a.flush.2.pending[i]? = none := by simp [ToolCallAssembler.flush]
  have hstarted := mem_started_flush (i := i) hkeyed
  by_cases hin : i ∈ a.started
  · rw [slotOf_started (hstarted.mpr (.inl hin)), slotOf_started hin]
    rfl
  · cases hget : a.pending[i]? with
    | none =>
      have hnot : i ∉ a.flush.2.started := by simp [hstarted, hin, hget]
      rw [slotOf_idle hnot hpending, slotOf_idle hin hget]
      rfl
    | some p =>
      rw [slotOf_held hkeyed hget, Slot.flush]
      cases hnamed : p.isNamed with
      | true =>
        rw [slotOf_started (hstarted.mpr (.inr ⟨p, hget, hnamed⟩))]
        rfl
      | false =>
        have hnot : i ∉ a.flush.2.started := by simp [hstarted, hin, hget, hnamed]
        rw [slotOf_idle hnot hpending]
        rfl

theorem flush_slot (hkeyed : Keyed a) : partsAt i a.flush.1 = (slotOf a i).flush.1 := by
  rw [partsAt_flush hkeyed]
  by_cases hin : i ∈ a.started
  · have hnone : a.pending[i]? = none := by
      rw [Option.eq_none_iff_forall_ne_some]
      exact fun p hp => (hkeyed i p hp).2 hin
    rw [slotOf_started hin, hnone]
    rfl
  · cases hget : a.pending[i]? with
    | none =>
      rw [slotOf_idle hin hget]
      rfl
    | some p =>
      rw [slotOf_held hkeyed hget]
      rfl

variable {id name delta : String} {thoughtSignature : Option String} {j : ℕ}

theorem mergedStart_index (a : ToolCallAssembler) (id name : String)
    (thoughtSignature : Option String) (j : ℕ) :
    (a.mergedStart id name thoughtSignature j).index = j := by
  unfold ToolCallAssembler.mergedStart
  split <;> rfl

theorem mergedStart_slot (hkeyed : Keyed a) (hin : i ∉ a.started) :
    a.mergedStart id name thoughtSignature i = (slotOf a i).merged id name thoughtSignature i := by
  unfold ToolCallAssembler.mergedStart
  cases hget : a.pending[i]? with
  | none =>
    rw [slotOf_idle hin hget]
    rfl
  | some p =>
    rw [slotOf_held hkeyed hget]
    rfl

theorem pushStart_not_started (s : Slot) (h : s ≠ .started) :
    s.pushStart id name thoughtSignature i =
      if (s.merged id name thoughtSignature i).id.isEmpty ||
          (s.merged id name thoughtSignature i).name.isEmpty then
        ([], .held (s.merged id name thoughtSignature i))
      else ((s.merged id name thoughtSignature i).intoEvents, .started) := by
  cases s with
  | idle => rfl
  | held p => rfl
  | started => exact absurd rfl h

theorem slotOf_ne_started (hin : i ∉ a.started) : slotOf a i ≠ .started := by
  unfold slotOf
  rw [if_neg hin]
  split
  · nofun
  · nofun

theorem keyed_insert (hkeyed : Keyed a) {p : PendingToolStart} (hindex : p.index = j)
    (hj : j ∉ a.started) : Keyed { a with pending := a.pending.insert j p } := by
  intro k q hq
  simp only [getElem?_insert] at hq
  split at hq
  · rename_i hkey
    obtain rfl := Option.some.inj hq
    exact hkey ▸ ⟨hindex, hj⟩
  · exact hkeyed k q hq

theorem keyed_started (hkeyed : Keyed a) : Keyed ⟨a.pending.erase j, insert j a.started⟩ := by
  intro k q hq
  simp only [Std.TreeMap.getElem?_erase, Nat.compare_eq_eq] at hq
  split at hq
  · cases hq
  · rename_i hkey
    obtain ⟨hindex, hk⟩ := hkeyed k q hq
    refine ⟨hindex, ?_⟩
    rw [Finset.mem_insert]
    exact not_or.mpr ⟨fun h => hkey h.symm, hk⟩

theorem keyed_pushStart (hkeyed : Keyed a) : Keyed (a.pushStart id name thoughtSignature j).2 := by
  unfold ToolCallAssembler.pushStart
  split
  · exact hkeyed
  · rename_i hj
    simp only
    split
    · exact keyed_insert hkeyed (mergedStart_index ..) hj
    · exact keyed_started hkeyed

theorem pushStart_slot (id name : String) (thoughtSignature : Option String) (hkeyed : Keyed a) :
    partsAt i (a.pushStart id name thoughtSignature i).1 =
        ((slotOf a i).pushStart id name thoughtSignature i).1 ∧
      slotOf (a.pushStart id name thoughtSignature i).2 i =
        ((slotOf a i).pushStart id name thoughtSignature i).2 := by
  unfold ToolCallAssembler.pushStart
  by_cases hin : i ∈ a.started
  · rw [if_pos hin, slotOf_started hin]
    exact ⟨rfl, rfl⟩
  · rw [if_neg hin, pushStart_not_started _ (slotOf_ne_started hin), mergedStart_slot hkeyed hin]
    simp only
    split
    · refine ⟨rfl, slotOf_held (keyed_insert hkeyed ?_ hin) ?_⟩
      · rw [← mergedStart_slot hkeyed hin, mergedStart_index]
      · simp only [getElem?_insert, if_true]
    · refine ⟨?_, slotOf_started (Finset.mem_insert_self i _)⟩
      rw [partsAt_intoEvents, ← mergedStart_slot hkeyed hin, if_pos (mergedStart_index ..)]

theorem pushStart_other (a : ToolCallAssembler) (id name : String)
    (thoughtSignature : Option String) (hij : j ≠ i) :
    partsAt i (a.pushStart id name thoughtSignature j).1 = [] ∧
      slotOf (a.pushStart id name thoughtSignature j).2 i = slotOf a i := by
  unfold ToolCallAssembler.pushStart
  split
  · exact ⟨rfl, rfl⟩
  · simp only
    split
    · refine ⟨rfl, slotOf_congr Iff.rfl ?_⟩
      simp only [getElem?_insert, if_neg hij]
    · refine ⟨?_, slotOf_congr ?_ ?_⟩
      · rw [partsAt_intoEvents, mergedStart_index, if_neg hij]
      · rw [Finset.mem_insert]
        exact or_iff_right hij.symm
      · simp only [Std.TreeMap.getElem?_erase, Nat.compare_eq_eq, if_neg hij]

theorem keyed_pushArgs (hkeyed : Keyed a) : Keyed (a.pushArgs delta j).2 := by
  unfold ToolCallAssembler.pushArgs
  split
  · rename_i p hget
    obtain ⟨hindex, hj⟩ := hkeyed j p hget
    exact keyed_insert hkeyed (p := { p with args := p.args ++ [delta] }) hindex hj
  · split
    · exact hkeyed
    · rename_i hj
      exact keyed_insert hkeyed (p := ⟨"", "", none, j, [delta]⟩) rfl hj

theorem pushArgs_slot (delta : String) (hkeyed : Keyed a) :
    partsAt i (a.pushArgs delta i).1 = ((slotOf a i).pushArgs delta i).1 ∧
      slotOf (a.pushArgs delta i).2 i = ((slotOf a i).pushArgs delta i).2 := by
  unfold ToolCallAssembler.pushArgs
  cases hget : a.pending[i]? with
  | some p =>
    obtain ⟨hindex, hin⟩ := hkeyed i p hget
    rw [slotOf_held hkeyed hget]
    refine ⟨rfl, slotOf_held (keyed_insert hkeyed ?_ hin) ?_⟩
    · exact hindex
    · simp only [getElem?_insert, if_true]
  | none =>
    simp only
    by_cases hin : i ∈ a.started
    · rw [if_pos hin, slotOf_started hin]
      exact ⟨by simp [partsAt, isPartAt, Slot.pushArgs], rfl⟩
    · rw [if_neg hin, slotOf_idle hin hget]
      refine ⟨rfl, slotOf_held (keyed_insert hkeyed rfl hin) ?_⟩
      simp only [getElem?_insert, if_true]

theorem pushArgs_other (a : ToolCallAssembler) (delta : String) (hij : j ≠ i) : partsAt i (a.pushArgs delta j).1 = [] ∧
    slotOf (a.pushArgs delta j).2 i = slotOf a i := by
  unfold ToolCallAssembler.pushArgs
  split
  · refine ⟨rfl, slotOf_congr Iff.rfl ?_⟩
    simp only [getElem?_insert, if_neg hij]
  · split
    · exact ⟨by simp [partsAt, isPartAt, hij], rfl⟩
    · refine ⟨rfl, slotOf_congr Iff.rfl ?_⟩
      simp only [getElem?_insert, if_neg hij]

structure PushSlot (i : ℕ) (a : ToolCallAssembler) (ev : IrStreamEvent) : Prop where
  keyed : Keyed (a.push ev).2
  parts : partsAt i (a.push ev).1 = (Slot.push i (slotOf a i) ev).1
  slot : slotOf (a.push ev).2 i = (Slot.push i (slotOf a i) ev).2

theorem push_other {ev : IrStreamEvent} (h : isFunctionCallPart ev = false) :
    a.push ev = (if isEnd ev then (a.flush.1 ++ [ev], a.flush.2) else ([ev], a)) ∧
      ∀ s : Slot, Slot.push i s ev = if isEnd ev then s.flush else ([], s) := by
  cases ev <;> first | exact ⟨rfl, fun _ => rfl⟩ | cases h

theorem push_slot (hkeyed : Keyed a) (ev : IrStreamEvent) : PushSlot i a ev := by
  cases hpart : isFunctionCallPart ev with
  | false =>
    obtain ⟨hpush, hslot⟩ := push_other (a := a) (i := i) hpart
    have hnone : isPartAt i ev = false := by
      by_contra h
      rw [isPartAt_self (by simpa using h)] at hpart
      cases hpart
    cases hend : isEnd ev with
    | true =>
      rw [hend, if_pos rfl] at hpush
      have hflush := hslot (slotOf a i)
      rw [hend, if_pos rfl] at hflush
      refine ⟨?_, ?_, ?_⟩
      · rw [hpush]
        exact keyed_flush
      · rw [hpush, hflush, partsAt_append, flush_slot hkeyed]
        simp [partsAt, hnone]
      · rw [hpush, hflush]
        exact slotOf_flush hkeyed
    | false =>
      rw [hend] at hpush
      have hkept := hslot (slotOf a i)
      rw [hend] at hkept
      refine ⟨?_, ?_, ?_⟩
      · rw [hpush]
        exact hkeyed
      · rw [hpush, hkept]
        simp [partsAt, hnone]
      · rw [hpush, hkept]
        rfl
  | true =>
    cases ev with
    | toolCallStart id name sig j =>
      rcases eq_or_ne j i with rfl | hij
      · obtain ⟨hparts, hslot⟩ := pushStart_slot id name sig hkeyed
        refine ⟨keyed_pushStart hkeyed, ?_, ?_⟩
        · rw [Slot.push, if_pos rfl]
          exact hparts
        · rw [Slot.push, if_pos rfl]
          exact hslot
      · obtain ⟨hparts, hslot⟩ := pushStart_other a id name sig hij
        refine ⟨keyed_pushStart hkeyed, ?_, ?_⟩
        · rw [Slot.push, if_neg hij]
          exact hparts
        · rw [Slot.push, if_neg hij]
          exact hslot
    | toolCallArgDelta delta j =>
      rcases eq_or_ne j i with rfl | hij
      · obtain ⟨hparts, hslot⟩ := pushArgs_slot delta hkeyed
        refine ⟨keyed_pushArgs hkeyed, ?_, ?_⟩
        · rw [Slot.push, if_pos rfl]
          exact hparts
        · rw [Slot.push, if_pos rfl]
          exact hslot
      · obtain ⟨hparts, hslot⟩ := pushArgs_other a delta hij
        refine ⟨keyed_pushArgs hkeyed, ?_, ?_⟩
        · rw [Slot.push, if_neg hij]
          exact hparts
        · rw [Slot.push, if_neg hij]
          exact hslot
    | _ => cases hpart

theorem pushAll_slot (hkeyed : Keyed a) (evs : List IrStreamEvent) :
    Keyed (a.pushAll evs).2 ∧
      partsAt i (a.pushAll evs).1 = (Slot.pushAll i (slotOf a i) evs).1 ∧
      slotOf (a.pushAll evs).2 i = (Slot.pushAll i (slotOf a i) evs).2 := by
  induction evs generalizing a with
  | nil => exact ⟨hkeyed, rfl, rfl⟩
  | cons ev evs ih =>
    have hpush := push_slot (i := i) hkeyed ev
    obtain ⟨hkept, hparts, hslot⟩ := ih hpush.keyed
    refine ⟨hkept, ?_, ?_⟩
    · rw [ToolCallAssembler.pushAll, Slot.pushAll, partsAt_append, hpush.parts, hparts, hpush.slot]
    · rw [ToolCallAssembler.pushAll, Slot.pushAll, hslot, hpush.slot]

theorem passed_push (ev : IrStreamEvent) : passed (a.push ev).1 = passed [ev] := by
  cases hpart : isFunctionCallPart ev with
  | false =>
    rw [(push_other (a := a) (i := 0) hpart).1]
    split
    · rw [passed_append, passed_flush, List.nil_append]
    · rfl
  | true =>
    have hnone : passed [ev] = [] := by simp [passed, hpart]
    rw [hnone]
    unfold passed
    rw [List.filter_eq_nil_iff]
    intro out hout
    rcases mem_push hout with rfl | hpart'
    · rw [hpart]
      simp
    · rw [hpart']
      simp

theorem passed_pushAll (evs : List IrStreamEvent) : passed (a.pushAll evs).1 = passed evs := by
  induction evs generalizing a with
  | nil => rfl
  | cons ev evs ih =>
    rw [ToolCallAssembler.pushAll, passed_append, passed_push, ih, ← passed_append]
    rfl

end Wiremux.AssemblerSlots
