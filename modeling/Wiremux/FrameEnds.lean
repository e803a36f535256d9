import Wiremux.WireEnds

set_option autoImplicit false

/-!
# Where the events of a frame come from

A frame is decoded by a walk over its data, or by its first event. The first
event is `done` for a listed `[DONE]` marker, what the wire reads for another
listed name, and no end for a name that is not listed.
-/
namespace Wiremux.FrameEnds
open JsonValue StreamEvents Completion SseReader Upstream FrameDecoding StreamDecoding TerminalEvents
open WireEnds

variable {sj : SerdeJson} {wire : Wire} {raw : SseFrame} {dialect : Dialect} {seq next : ℕ}
  {xs : List IrStreamEvent} {out : Option IrStreamEvent}

/-- The frame is no keep-alive and the profile lists its name. -/
def listed (sj : SerdeJson) (wire : Wire) (raw : SseFrame) (dialect : Dialect) : Prop :=
  (raw.event.isNone && isBlank raw.data) = false ∧
    dialect.streamEvents.contains (frameEventName sj wire raw) = true

def marked (sj : SerdeJson) (wire : Wire) (raw : SseFrame) : Prop :=
  frameEventName sj wire raw = "[DONE]" ∨ trim raw.data = "[DONE]"

theorem noEnd_unknownPolicy {name data : String}
    (h : unknownPolicy sj wire dialect name data = .ok out) : NoEnd out.toList := by
  unfold unknownPolicy at h
  split at h
  · split at h
    · cases h
      rfl
    · cases h
  · cases h
    rfl

theorem noEnd_unknownEvent {name data : String}
    (h : unknownEvent sj wire dialect name data = .ok out) : NoEnd out.toList := by
  unfold unknownEvent at h
  split at h
  · split at h
    · cases h
    · exact noEnd_unknownPolicy h
  · exact noEnd_unknownPolicy h

theorem first_of_listed (h : listed sj wire raw dialect) :
    decodeStreamEvent sj wire raw dialect =
      decodeListed sj wire (frameEventName sj wire raw) raw := by
  unfold decodeStreamEvent
  rw [h.1]
  simp only [Bool.false_eq_true, if_false]
  rw [if_pos h.2]

theorem first_of_marker (h : listed sj wire raw dialect) (hmark : marked sj wire raw) :
    decodeStreamEvent sj wire raw dialect = .ok (some .done) := by
  rw [first_of_listed h]
  exact if_pos hmark

theorem first_of_value (h : listed sj wire raw dialect) (hmark : ¬marked sj wire raw)
    (hout : decodeStreamEvent sj wire raw dialect = .ok out) :
    ∃ value, sj.fromStr raw.data = some value ∧
      decodeValue sj wire (frameEventName sj wire raw) value = .ok out := by
  rw [first_of_listed h] at hout
  unfold decodeListed at hout
  split at hout
  · rename_i hdone
    exact absurd hdone hmark
  · split at hout
    · cases hout
    · rename_i value hvalue
      exact ⟨value, hvalue, hout⟩

theorem first_of_unlisted (h : ¬listed sj wire raw dialect)
    (hout : decodeStreamEvent sj wire raw dialect = .ok out) : NoEnd out.toList := by
  unfold decodeStreamEvent at hout
  split at hout
  · cases hout
    rfl
  · rename_i hspoken
    simp only at hout
    split at hout
    · rename_i hname
      exact absurd ⟨Bool.eq_false_iff.mpr hspoken, hname⟩ h
    · exact noEnd_unknownEvent hout

theorem isEnd_of_isProtocol {ev : IrStreamEvent} (h : isProtocol ev = true) : isEnd ev = false := by
  cases ev <;> first | rfl | cases h

theorem isEnd_of_isCallOrProtocol {ev : IrStreamEvent} (h : isCallOrProtocol ev = true) :
    isEnd ev = false := by
  cases ev <;> first | rfl | cases h

theorem noEnd_expandEach {chunk : Value} {calls : List Value}
    (h : expandEach sj chunk calls = .ok xs) : NoEnd xs := by
  induction calls generalizing xs with
  | nil =>
    cases h
    rfl
  | cons call rest ih =>
    unfold expandEach at h
    split at h
    · cases h
    · rename_i events hevents
      obtain ⟨more, hmore, rfl⟩ := EmittingRuns.map_eq_ok h
      exact noEnd_append.mpr ⟨noEnd_filter (noEnd_expandToolCall hevents), ih hmore⟩

theorem orNone_eq_some {events : List IrStreamEvent} (h : orNone events = some xs) :
    xs = events := by
  unfold orNone at h
  split at h
  · cases h
  · exact (Option.some.inj h).symm

theorem expand_quiet {first : IrStreamEvent}
    (h : expandCompleteToolCall sj wire first raw = .ok (some xs)) :
    isEnd first = false ∧ NoEnd xs := by
  unfold expandCompleteToolCall at h
  split at h
  · cases h
  · split at h
    · unfold expandChatToolCall at h
      split at h
      · rename_i hprotocol
        split at h
        · cases h
        · obtain ⟨events, hevents, hsome⟩ := EmittingRuns.map_eq_ok h
          rw [orNone_eq_some hsome]
          exact ⟨isEnd_of_isProtocol hprotocol, noEnd_expandEach hevents⟩
      · cases h
    · have hsome := Except.ok.inj h
      obtain ⟨part, _, hpart⟩ := Option.bind_eq_some_iff.mp hsome
      obtain ⟨fc, _, hfc⟩ := Option.bind_eq_some_iff.mp hpart
      obtain ⟨args, _, hargs⟩ := Option.bind_eq_some_iff.mp hfc
      split at hargs
      · rename_i hcall
        cases hargs
        exact ⟨isEnd_of_isCallOrProtocol hcall, rfl⟩
      · cases hargs
    · have hsome := Except.ok.inj h
      unfold expandResponsesFunctionCall at hsome
      split at hsome
      · obtain ⟨args, _, rfl⟩ := Option.map_eq_some_iff.mp hsome
        exact ⟨rfl, rfl⟩
      · cases hsome
    · cases h
    · cases h

theorem aroundFirst_ends (first : IrStreamEvent) :
    (aroundFirst sj wire raw first).any isEnd = isEnd first := by
  have hone : [first].any isEnd = isEnd first := by simp
  unfold aroundFirst
  split
  · split
    · exact frameEvents_ends _ _ first
    · exact hone
  · exact hone

theorem eventsOfFirst_ends (h : eventsOfFirst sj wire raw out = .ok xs) :
    xs.any isEnd = out.toList.any isEnd := by
  unfold eventsOfFirst at h
  split at h
  · cases h
    rfl
  · rename_i first
    obtain ⟨expanded, hexpand, rfl⟩ := EmittingRuns.map_eq_ok h
    cases expanded with
    | none =>
      rw [Option.getD_none, aroundFirst_ends]
      simp
    | some events =>
      obtain ⟨hfirst, hevents⟩ := expand_quiet hexpand
      have hquiet : events.any isEnd = false := hevents
      simp [hfirst, hquiet]

/-- A frame is settled by its early events, by the fan-out, or by its first event. -/
theorem decodeSeq_cases (h : decodeStreamEventsSeq sj wire raw dialect seq = .ok (xs, next)) :
    earlyEvents sj wire (decodeStreamEvent sj wire raw dialect) raw = .ok (some xs) ∨
      (earlyEvents sj wire (decodeStreamEvent sj wire raw dialect) raw = .ok none ∧
        ∃ out, decodeStreamEvent sj wire raw dialect = .ok out ∧
          (fanOutEvents sj wire raw seq = some (xs, next) ∨
            (fanOutEvents sj wire raw seq = none ∧ eventsOfFirst sj wire raw out = .ok xs))) := by
  unfold decodeStreamEventsSeq at h
  simp only at h
  split at h
  · cases h
  · rename_i events hearly
    cases h
    exact .inl hearly
  · rename_i hearly
    refine .inr ⟨hearly, ?_⟩
    split at h
    · cases h
    · rename_i out hfirst
      refine ⟨out, hfirst, ?_⟩
      split at h
      · rename_i found hfan
        cases h
        exact .inl hfan
      · rename_i hfan
        obtain ⟨events, hevents, heq⟩ := EmittingRuns.map_eq_ok h
        cases heq
        exact .inr ⟨hfan, hevents⟩

/-- Whether a part shows an event does not depend on the number of its call. -/
theorem geminiPart_nil (part : Value) (m n : ℕ) :
    (GeminiDecoding.geminiPartEvents sj part m).1 = [] ↔
      (GeminiDecoding.geminiPartEvents sj part n).1 = [] := by
  unfold GeminiDecoding.geminiPartEvents
  cases GeminiDecoding.visibleCall part with
  | none => exact Iff.rfl
  | some fc => simp [GeminiDecoding.callEvents]

theorem geminiParts_nil (parts : List Value) (m n : ℕ) :
    (GeminiDecoding.partsEvents sj parts m).1 = [] ↔
      (GeminiDecoding.partsEvents sj parts n).1 = [] := by
  induction parts generalizing m n with
  | nil => exact Iff.rfl
  | cons part rest ih =>
    simp only [GeminiDecoding.partsEvents, List.append_eq_nil_iff]
    exact and_congr (geminiPart_nil part m n) (ih _ _)

theorem fanOut_none (value : Value) (m n : ℕ) (h : GeminiDecoding.fanOut sj value m = none) :
    GeminiDecoding.fanOut sj value n = none := by
  unfold GeminiDecoding.fanOut at h
  simp only at h
  split at h
  · rename_i hempty
    refine if_pos ?_
    simp only [List.isEmpty_iff, List.append_eq_nil_iff] at hempty ⊢
    rwa [geminiParts_nil _ n m]
  · cases h

theorem fanOutEvents_none {m : ℕ} (h : fanOutEvents sj wire raw m = none) (n : ℕ) :
    fanOutEvents sj wire raw n = none := by
  unfold fanOutEvents at h ⊢
  cases wire with
  | converse =>
    simp only [Option.bind_eq_none_iff] at h ⊢
    intro value hvalue
    have hnone := h value hvalue
    split at hnone
    · cases hnone
    · rename_i hshort
      rw [if_neg hshort]
  | gemini =>
    simp only [Option.bind_eq_none_iff] at h ⊢
    exact fun value hvalue => fanOut_none value m n (h value hvalue)
  | _ => rfl

end Wiremux.FrameEnds
