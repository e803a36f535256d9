import Wiremux.AssembledCalls

set_option autoImplicit false

/-!
# A new call at a used index

The assembler takes every start behind the first one of its index for a
repetition, also when it has an id of its own. So a new call comes out exactly
when its index has no start out.
-/
namespace Wiremux.ReusedIndexes
open StreamEvents ToolAssembly TerminalEvents AssemblerSlots AssembledCalls

variable {evs before mid : List IrStreamEvent} {id name : String} {sig : Option String} {i : ℕ}

/-- A whole start with an id that no start before it has. -/
structure NewCall (before : List IrStreamEvent) (id name : String) : Prop where
  hasId : id ≠ ""
  hasName : name ≠ ""
  fresh : ∀ i, ∀ s ∈ startsAt i before, s.1 ≠ id

/-- The start comes out once, and the arguments up to the next start behind it,
before that start is pushed. -/
structure Delivered (before : List IrStreamEvent) (id name : String) (sig : Option String) (i : ℕ)
    (mid rest : List IrStreamEvent) : Prop where
  once : (startsAt i (assembled
    (before ++ .toolCallStart id name sig i :: (mid ++ rest)))).count (id, name) = 1
  followed : ∃ pre sig' between,
    (ToolCallAssembler.pushAll {} (before ++ .toolCallStart id name sig i :: mid)).1 =
      pre ++ .toolCallStart id name sig' i :: between ∧
    startsAt i between = [] ∧ deltasAt i mid <:+ deltasAt i between

/-- Every new call comes out. -/
def AllDelivered (evs : List IrStreamEvent) : Prop :=
  ∀ before id name sig i mid rest,
    evs = before ++ .toolCallStart id name sig i :: (mid ++ rest) → NewCall before id name →
      startsAt i mid = [] → Delivered before id name sig i mid rest

/-- No new call comes at an index whose start is out. -/
def FreshIndexes (evs : List IrStreamEvent) : Prop :=
  ∀ before id name sig i rest, evs = before ++ .toolCallStart id name sig i :: rest →
    NewCall before id name → ¬ Released i before

theorem begun_of_released (h : Released i before) :
    Begun i before (partsAt i (ToolCallAssembler.pushAll {} before).1) := by
  have hrun := slotRun_new (i := i) before
  cases hslot : slotOf (ToolCallAssembler.pushAll {} before).2 i with
  | started =>
    rw [hslot] at hrun
    exact hrun
  | idle =>
    rw [hslot] at hrun
    exact absurd h (Waiting.unreleased hrun)
  | held p =>
    rw [hslot] at hrun
    exact absurd h (Waiting.unreleased hrun)

theorem assembled_append (before rest : List IrStreamEvent) : ∃ more,
    assembled (before ++ rest) = (ToolCallAssembler.pushAll {} before).1 ++ more := by
  rw [assembled, ToolCallAssembler.pushAll_append, List.append_assoc]
  exact ⟨_, rfl⟩

theorem only_start (rest : List IrStreamEvent) (h : Released i before) :
    ∃ start, startsAt i (assembled (before ++ rest)) = [start] ∧
      (start.1 ≠ "" → ∃ x ∈ startsAt i before, x.1 = start.1) := by
  obtain ⟨start, hstart, horigin⟩ := (begun_of_released h).start
  refine ⟨start, ?_, horigin⟩
  obtain ⟨more, hmore⟩ := assembled_append before rest
  have hone := startsAt_assembled (i := i) (before ++ rest)
  rw [startsAt_parts] at hstart
  rw [hmore, startsAt_append, hstart] at hone ⊢
  have hnone : startsAt i more = [] := by
    rw [← List.length_eq_zero_iff]
    simpa using hone
  rw [hnone, List.append_nil]

theorem not_delivered {rest : List IrStreamEvent} (hnew : NewCall before id name)
    (h : Released i before) : ¬ Delivered before id name sig i [] rest := by
  intro hdelivered
  obtain ⟨start, hstart, horigin⟩ :=
    only_start (.toolCallStart id name sig i :: ([] ++ rest)) h
  have honce := hdelivered.once
  rw [hstart] at honce
  have hsame : start = (id, name) := by
    by_contra hne
    rw [List.count_cons_of_ne hne] at honce
    cases honce
  rw [hsame] at horigin
  obtain ⟨x, hx, heq⟩ := horigin hnew.hasId
  exact hnew.fresh i x hx heq

theorem push_whole {a : ToolCallAssembler} (sig : Option String) (hid : id ≠ "") (hname : name ≠ "")
    (hin : i ∉ a.started) : ∃ (sig' : Option String) (args : List String), (a.push (.toolCallStart id name sig i)).1 =
      .toolCallStart id name sig' i :: args.map fun delta => .toolCallArgDelta delta i := by
  have hmerged : (a.mergedStart id name sig i).id = id ∧ (a.mergedStart id name sig i).name = name := by
    unfold ToolCallAssembler.mergedStart
    split
    · simp [hid, hname]
    · exact ⟨rfl, rfl⟩
  have hwhole : ¬ ((a.mergedStart id name sig i).id.isEmpty ||
      (a.mergedStart id name sig i).name.isEmpty) = true := by
    rw [hmerged.1, hmerged.2]
    simp [hid, hname]
  refine ⟨(a.mergedStart id name sig i).thoughtSignature, (a.mergedStart id name sig i).args, ?_⟩
  rw [ToolCallAssembler.push, ToolCallAssembler.pushStart, if_neg hin]
  simp only
  rw [if_neg hwhole]
  simp only
  have hnamed : (a.mergedStart id name sig i).isNamed = true := by
    rw [isNamed_iff, hmerged.1]
    exact .inl hid
  rw [intoEvents_named hnamed, hmerged.1, hmerged.2, mergedStart_index]

theorem not_started (h : ¬ Released i before) :
    i ∉ (ToolCallAssembler.pushAll {} before).2.started := by
  intro hin
  have hrun := slotRun_new (i := i) before
  rw [slotOf_started hin] at hrun
  exact h (Begun.released hrun)

theorem delivered {rest : List IrStreamEvent} (hnew : NewCall before id name)
    (h : ¬ Released i before) : Delivered before id name sig i mid rest := by
  obtain ⟨sig', args, hpush⟩ := push_whole sig hnew.hasId hnew.hasName (not_started h)
  have hsplit : before ++ .toolCallStart id name sig i :: mid =
      before ++ [.toolCallStart id name sig i] ++ mid := by simp
  have hstart : (ToolCallAssembler.pushAll {} (before ++ [.toolCallStart id name sig i])).1 =
      (ToolCallAssembler.pushAll {} before).1 ++
        .toolCallStart id name sig' i :: args.map fun delta => .toolCallArgDelta delta i := by
    rw [ToolCallAssembler.pushAll_append]
    simp only [ToolCallAssembler.pushAll, hpush, List.append_nil]
  have hknown : Released i (before ++ [.toolCallStart id name sig i]) := by
    refine released_snoc.mpr (.inr (.inl ⟨?_, ?_⟩))
    · exact (idKnown_append _).mpr (.inr (known_start.1.mpr hnew.hasId))
    · exact (nameKnown_append _).mpr (.inr (known_start.2.mpr hnew.hasName))
  have hstarts : (id, name) ∈ startsAt i
      (ToolCallAssembler.pushAll {} (before ++ [.toolCallStart id name sig i])).1 := by
    have hself : startAt? i (.toolCallStart id name sig' i) = some (id, name) := if_pos rfl
    rw [hstart, startsAt_append, startsAt, startsAt, List.filterMap_cons, hself]
    exact List.mem_append_right _ List.mem_cons_self
  refine ⟨?_, ?_⟩
  · obtain ⟨start, hone, _⟩ := only_start (mid ++ rest) hknown
    obtain ⟨more, hmore⟩ := assembled_append (before ++ [.toolCallStart id name sig i]) (mid ++ rest)
    have hmem : (id, name) ∈ startsAt i
        (assembled (before ++ [.toolCallStart id name sig i] ++ (mid ++ rest))) := by
      rw [hmore, startsAt_append]
      exact List.mem_append_left _ hstarts
    rw [hone] at hmem
    have hlist : before ++ .toolCallStart id name sig i :: (mid ++ rest) =
        before ++ [.toolCallStart id name sig i] ++ (mid ++ rest) := by simp
    rw [hlist, hone, List.mem_singleton.mp hmem]
    simp
  · refine ⟨(ToolCallAssembler.pushAll {} before).1, sig',
      (args.map fun delta => .toolCallArgDelta delta i) ++
        (ToolCallAssembler.pushAll (ToolCallAssembler.pushAll {}
          (before ++ [.toolCallStart id name sig i])).2 mid).1, ?_, ?_, ?_⟩
    · rw [hsplit, ToolCallAssembler.pushAll_append, hstart]
      simp
    · obtain ⟨start, hone, _⟩ := (begun_of_released (hknown.append mid)).start
      have hself : startsAt i [.toolCallStart id name sig' i] = [(id, name)] := by
        have hstart : startAt? i (.toolCallStart id name sig' i) = some (id, name) := if_pos rfl
        rw [startsAt_single, hstart, Option.toList_some]
      rw [startsAt_parts, ToolCallAssembler.pushAll_append, hstart, List.append_assoc,
        List.cons_append, ← List.singleton_append, startsAt_append, startsAt_append, hself] at hone
      have hlength := congrArg List.length hone
      rw [List.length_append, List.length_append, List.length_singleton, List.length_singleton] at hlength
      exact List.length_eq_zero_iff.mp (by omega)
    · have hlater := (begun_of_released (hknown.append mid)).deltas
      have hsooner := (begun_of_released hknown).deltas
      rw [deltasAt_parts] at hlater hsooner
      rw [ToolCallAssembler.pushAll_append, deltasAt_append, hsooner,
        deltasAt_append (i := i) _ mid] at hlater
      rw [deltasAt_append, List.append_cancel_left hlater]
      exact List.suffix_append _ _

/-- New calls come out, with their arguments, exactly where none of them comes
at an index whose start is out. -/
theorem new_calls_delivered (evs : List IrStreamEvent) : AllDelivered evs ↔ FreshIndexes evs := by
  constructor
  · intro h before id name sig i rest heq hnew hreleased
    have hall := h before id name sig i [] rest (by rw [heq, List.nil_append]) hnew rfl
    exact not_delivered hnew hreleased hall
  · intro h before id name sig i mid rest heq hnew _
    exact delivered hnew (h before id name sig i (mid ++ rest) heq hnew)

def sameIndex : List IrStreamEvent :=
  [.toolCallStart "a" "f" none 0, .toolCallStart "b" "g" none 0]

theorem second_call_swallowed : ¬ ∀ evs, AllDelivered evs := by
  intro h
  have hnew : NewCall [.toolCallStart "a" "f" none 0] "b" "g" := by
    refine ⟨by decide, by decide, ?_⟩
    intro i s hs
    rw [startsAt_single, startAt?] at hs
    split at hs
    · rw [List.mem_singleton.mp hs]
      decide
    · cases hs
  have honce := (h sameIndex [.toolCallStart "a" "f" none 0] "b" "g" none 0 [] [] rfl hnew rfl).once
  have hout : startsAt 0 (assembled sameIndex) = [("a", "f")] := rfl
  exact absurd honce (by decide)

end Wiremux.ReusedIndexes
