import Wiremux.FrameEnds

set_option autoImplicit false

/-!
# Terminal frames and decoded ends

`frameIsTerminal` reads the data again with tests of its own. This module says
for each wire when they find what the decoded events say.
-/
namespace Wiremux.TerminalAgreement
open JsonValue StreamEvents Completion SseReader Upstream FrameDecoding StreamDecoding TerminalEvents
open WireEnds FrameEnds

variable {sj : SerdeJson} {wire : Wire} {raw : SseFrame} {dialect : Dialect} {seq next : ℕ}
  {xs : List IrStreamEvent} {out : Option IrStreamEvent}

def saysNothing (sj : SerdeJson) (wire : Wire) (raw : SseFrame) : Prop :=
  earlyEvents sj wire (.ok none) raw = .ok none ∧ fanOutEvents sj wire raw 0 = none

def markerAlone (sj : SerdeJson) (wire : Wire) (raw : SseFrame) (dialect : Dialect) : Prop :=
  listed sj wire raw dialect ∧ marked sj wire raw ∧ saysNothing sj wire raw

theorem done_of_marker (h : listed sj wire raw dialect) (hmark : marked sj wire raw)
    (hout : decodeStreamEvent sj wire raw dialect = .ok out) : out.toList.any isEnd = true := by
  rw [first_of_marker h hmark] at hout
  cases hout
  rfl

section
open ChatDecoding

def chatFinishes (sj : SerdeJson) (raw : SseFrame) : Prop :=
  ∃ value events, sj.fromStr raw.data = some value ∧ decodeAll sj value = .ok events ∧
    firstFinishes value = true

def isUnknown : Option IrStreamEvent → Bool
  | some (.unknown ..) => true
  | _ => false

theorem chatNamedFrame_of_known (h : isUnknown out = false) : chatNamedFrame (.ok out) = true := by
  unfold chatNamedFrame
  split
  · rename_i heq
    cases heq
    cases h
  · rfl
  · rename_i heq
    cases heq

theorem chatEvents_of_known (h : isUnknown out = false) :
    chatEvents sj (.ok out) raw = chatEvents sj (.ok none) raw := by
  unfold chatEvents
  split
  · rfl
  · split
    · rw [chatNamedFrame_of_known h]
      rfl
    · rfl
    · rfl

theorem firstFinishes_of_lone {value : Value} {ev : IrStreamEvent} {rest : List IrStreamEvent}
    (h : decodeAll sj value = .ok (ev :: rest)) (hlone : loneProtocol (ev :: rest) = true) :
    firstFinishes value = false := by
  rw [← decodeAll_ends h]
  cases rest with
  | cons _ _ => cases ev <;> cases hlone
  | nil => cases ev <;> first | rfl | cases hlone

theorem not_chatFinishes_of_none (h : chatEvents sj (.ok out) raw = .ok none) :
    ¬chatFinishes sj raw := by
  rintro ⟨value, events, hvalue, hall, hfinish⟩
  unfold chatEvents at h
  rw [hvalue] at h
  simp only [hall] at h
  cases events with
  | nil =>
    rw [← decodeAll_ends hall] at hfinish
    cases hfinish
  | cons ev rest =>
    simp only [standsIn, Except.toOption, Option.isSome_some, Bool.true_or, if_true] at h
    split at h
    · rename_i hlone
      rw [firstFinishes_of_lone hall hlone] at hfinish
      cases hfinish
    · cases h

theorem chatEvents_ends {first : Except MapError (Option IrStreamEvent)}
    (h : chatEvents sj first raw = .ok (some xs)) :
    (xs.any isEnd = true ↔ chatFinishes sj raw) ∧ ¬saysNothing sj .chatCompletions raw := by
  unfold chatEvents at h
  split at h
  · cases h
  · rename_i value hvalue
    split at h
    · split at h <;> cases h
    · cases h
    · rename_i ev rest hall
      split at h
      · split at h
        · rename_i hlone
          have hfinish : firstFinishes value = false := firstFinishes_of_lone hall hlone
          have hquiet : xs.any isEnd = false := (expand_quiet h).2
          constructor
          · rw [hquiet]
            constructor
            · intro hfalse
              cases hfalse
            · rintro ⟨value', events, hvalue', _, hfirst⟩
              rw [hvalue] at hvalue'
              cases hvalue'
              rw [hfinish] at hfirst
              cases hfirst
          · rintro ⟨hnone, _⟩
            simp only [earlyEvents, chatEvents, hvalue, hall, standsIn, Except.toOption,
              Option.isSome_some, Bool.true_or, if_true, hlone, h] at hnone
            cases hnone
        · rename_i hlone
          cases h
          constructor
          · rw [decodeAll_ends hall]
            exact ⟨fun hfinish => ⟨value, _, hvalue, hall, hfinish⟩, fun ⟨value', _, hvalue', _, hfinish⟩ =>
              Option.some.inj (hvalue.symm.trans hvalue') ▸ hfinish⟩
          · rintro ⟨hnone, _⟩
            simp only [earlyEvents, chatEvents, hvalue, hall, standsIn, Except.toOption,
              Option.isSome_some, Bool.true_or, if_true] at hnone
            rw [if_neg hlone] at hnone
            cases hnone
      · cases h

theorem isUnknown_quiet (h : isUnknown out = true) : out.toList.any isEnd = false := by
  unfold isUnknown at h
  split at h
  · rfl
  · cases h

theorem chat_ends (h : decodeStreamEventsSeq sj .chatCompletions raw dialect seq = .ok (xs, next)) :
    xs.any isEnd = true ↔
      chatFinishes sj raw ∨ markerAlone sj .chatCompletions raw dialect := by
  rcases decodeSeq_cases h with hearly | ⟨hearly, out, hfirst, hrest⟩
  · obtain ⟨hends, hsays⟩ := chatEvents_ends hearly
    rw [hends]
    exact ⟨.inl, fun hright => hright.resolve_right fun hmarker => hsays hmarker.2.2⟩
  · rw [hfirst] at hearly
    have hquiet : ¬chatFinishes sj raw := not_chatFinishes_of_none hearly
    have hevents : eventsOfFirst sj .chatCompletions raw out = .ok xs := by
      rcases hrest with hfan | ⟨_, hevents⟩
      · cases hfan
      · exact hevents
    rw [eventsOfFirst_ends hevents]
    constructor
    · intro hend
      by_cases hlisted : listed sj .chatCompletions raw dialect
      · by_cases hmark : marked sj .chatCompletions raw
        · have hknown : isUnknown out = false := by
            rw [first_of_marker hlisted hmark] at hfirst
            cases hfirst
            rfl
          exact .inr ⟨hlisted, hmark, (chatEvents_of_known hknown).symm.trans hearly, rfl⟩
        · obtain ⟨value, hvalue, hdecode⟩ := first_of_value hlisted hmark hfirst
          obtain ⟨ev, hev⟩ : ∃ ev, out = some ev := by
            cases out with
            | none => cases hend
            | some ev => exact ⟨ev, rfl⟩
          have hfinish : firstFinishes value = true :=
            endsOnlyIf_chat hdecode ev hev (by simpa [hev] using hend)
          cases hall : decodeAll sj value with
          | ok events => exact absurd ⟨value, events, hvalue, hall, hfinish⟩ hquiet
          | error e =>
            unfold earlyEvents chatEvents at hearly
            simp only [hvalue, hall] at hearly
            split at hearly
            · cases hearly
            · rename_i hnamed
              cases hunknown : isUnknown out with
              | false => exact absurd (chatNamedFrame_of_known hunknown) hnamed
              | true =>
                rw [isUnknown_quiet hunknown] at hend
                cases hend
      · have hnoend : out.toList.any isEnd = false := first_of_unlisted hlisted hfirst
        rw [hnoend] at hend
        cases hend
    · rintro (hfinish | ⟨hlisted, hmark, _⟩)
      · exact absurd hfinish hquiet
      · exact done_of_marker hlisted hmark hfirst

end

/-- The chunk ends the stream only with its first choice, or as a marker. -/
def ChatAgrees (sj : SerdeJson) (raw : SseFrame) (dialect : Dialect) : Prop :=
  chatFrameIsTerminal sj raw = true →
    chatFinishes sj raw ∨ markerAlone sj .chatCompletions raw dialect

theorem chatFrameIsTerminal_of_marked (h : marked sj .chatCompletions raw) :
    chatFrameIsTerminal sj raw = true := by
  unfold chatFrameIsTerminal
  by_cases hdata : trim raw.data = "[DONE]"
  · simp [hdata]
  · have hname : frameEventName sj .chatCompletions raw = "[DONE]" := h.resolve_right hdata
    unfold frameEventName at hname
    split at hname
    · rename_i event hevent
      have hraw : raw.event = some event := (Option.filter_eq_some_iff.mp hevent).1
      simp [hraw, hname]
    · rw [if_neg hdata] at hname
      have hchunk : "chunk" = "[DONE]" := hname
      exact absurd hchunk (by decide)

theorem chatFrameIsTerminal_of_finishes (h : chatFinishes sj raw) :
    chatFrameIsTerminal sj raw = true := by
  obtain ⟨value, _, hvalue, _, hfinish⟩ := h
  obtain ⟨choice, hchoice, hreason⟩ : ∃ choice,
      ChatDecoding.firstChoice value = some choice ∧ nonemptyStr choice "finish_reason" = true := by
    unfold firstFinishes at hfinish
    cases hchoice : ChatDecoding.firstChoice value with
    | none =>
      rw [hchoice] at hfinish
      cases hfinish
    | some choice =>
      rw [hchoice] at hfinish
      exact ⟨choice, rfl, hfinish⟩
  obtain ⟨choices, hchoices, hhead⟩ := Option.bind_eq_some_iff.mp hchoice
  have hany : arrayAny value "choices" (fun choice => nonemptyStr choice "finish_reason") = true := by
    unfold arrayAny items
    rw [hchoices]
    exact List.any_eq_true.mpr ⟨choice, List.mem_of_head? hhead, hreason⟩
  unfold chatFrameIsTerminal
  rw [hvalue, Option.any_some, hany, Bool.or_true]

theorem chat_agrees (h : decodeStreamEventsSeq sj .chatCompletions raw dialect seq = .ok (xs, next)) :
    (chatFrameIsTerminal sj raw = true ↔ xs.any isEnd = true) ↔ ChatAgrees sj raw dialect := by
  rw [chat_ends h]
  constructor
  · exact fun hiff hterminal => hiff.mp hterminal
  · intro hagrees
    refine ⟨hagrees, ?_⟩
    rintro (hfinish | hmarker)
    · exact chatFrameIsTerminal_of_finishes hfinish
    · exact chatFrameIsTerminal_of_marked hmarker.2.1

theorem messages_cases (h : decodeStreamEventsSeq sj .messages raw dialect seq = .ok (xs, next)) :
    ∃ out, decodeStreamEvent sj .messages raw dialect = .ok out ∧
      xs.any isEnd = out.toList.any isEnd := by
  rcases decodeSeq_cases h with hearly | ⟨_, out, hfirst, hfan | ⟨_, hevents⟩⟩
  · cases hearly
  · cases hfan
  · exact ⟨out, hfirst, eventsOfFirst_ends hevents⟩

def emptyStopReason (sj : SerdeJson) (raw : SseFrame) : Prop :=
  frameEventName sj .messages raw = "message_delta" ∧
    ∃ value, sj.fromStr raw.data = some value ∧ textAt value ["delta", "stop_reason"] = some ""

/-- Terminal frames are listed, listed markers are terminal, and no stop reason is empty. -/
def MessagesAgrees (sj : SerdeJson) (raw : SseFrame) (dialect : Dialect) : Prop :=
  (messagesFrameIsTerminal sj raw = true → listed sj .messages raw dialect) ∧
    (listed sj .messages raw dialect → marked sj .messages raw →
      messagesFrameIsTerminal sj raw = true) ∧
    (listed sj .messages raw dialect → ¬marked sj .messages raw → ¬emptyStopReason sj raw)

theorem nonemptyAt_eq (value : Value) (path : List String) :
    nonemptyAt value path = (textAt value path).any fun text => !text.isEmpty := by
  unfold nonemptyAt textAt isText
  cases pointer? value path with
  | none => rfl
  | some v => rfl

/-- On JSON the terminal test is the finish of the decoder, but for empty stop reasons. -/
theorem messagesFinishes_iff {value : Value} (hvalue : sj.fromStr raw.data = some value) :
    messagesFinishes (frameEventName sj .messages raw) value = true ↔
      messagesFrameIsTerminal sj raw = true ∨ emptyStopReason sj raw := by
  have hempty : emptyStopReason sj raw ↔ frameEventName sj .messages raw = "message_delta" ∧
      textAt value ["delta", "stop_reason"] = some "" := by
    unfold emptyStopReason
    simp [hvalue]
  rw [hempty]
  unfold messagesFinishes messagesFrameIsTerminal
  simp only [hvalue, Option.any_some, nonemptyAt_eq, Bool.or_eq_true, Bool.and_eq_true, beq_iff_eq]
  cases textAt value ["delta", "stop_reason"] with
  | none => simp
  | some text =>
    by_cases htext : text = ""
    · simp [htext]
    · simp [htext]

theorem messages_agrees (h : decodeStreamEventsSeq sj .messages raw dialect seq = .ok (xs, next)) :
    (messagesFrameIsTerminal sj raw = true ↔ xs.any isEnd = true) ↔
      MessagesAgrees sj raw dialect := by
  obtain ⟨out, hfirst, hends⟩ := messages_cases h
  rw [hends]
  unfold MessagesAgrees
  by_cases hlisted : listed sj .messages raw dialect
  · by_cases hmark : marked sj .messages raw
    · rw [done_of_marker hlisted hmark hfirst]
      simp [hlisted, hmark]
    · obtain ⟨value, hvalue, hdecode⟩ := first_of_value hlisted hmark hfirst
      rw [messages_ends hdecode, messagesFinishes_iff hvalue]
      have hexclusive : messagesFrameIsTerminal sj raw = true → ¬emptyStopReason sj raw := by
        rintro hterminal ⟨hname, value', hvalue', hstop⟩
        unfold messagesFrameIsTerminal at hterminal
        rw [hname, hvalue'] at hterminal
        simp [nonemptyAt_eq, hstop] at hterminal
      tauto
  · have hquiet : out.toList.any isEnd = false := first_of_unlisted hlisted hfirst
    rw [hquiet]
    simp [hlisted]

section
open ResponsesDecoding

/-- A slot of the response, or two of its items, reason and usage. -/
def reportsTwo (name : String) (value : Value) : Bool :=
  !(responseSlotEvents value).isEmpty ||
    decide (2 ≤ ((items (pointer? value ["response", "output"])).flatMap terminalItemEvents).length +
      (terminalFinishReason name value).toList.length +
      (objectAt value ["response", "usage"]).toList.length)

theorem isSome_ite_some {α : Type} {p : Prop} [Decidable p] {a : α} :
    (if p then some a else none).isSome = decide p := by
  by_cases hp : p <;> simp [hp]

theorem decodeTerminalEvents_isSome {name : String} (value : Value) (hname : name ∈ terminalNames) :
    (decodeTerminalEvents name value).isSome = reportsTwo name value := by
  have hcontains : terminalNames.contains name = true := List.contains_iff_mem.mpr hname
  unfold decodeTerminalEvents reportsTwo
  rw [if_pos hcontains]
  simp only [isSome_ite_some]
  cases hslots : responseSlotEvents value with
  | cons ev rest => simp
  | nil =>
    simp only [List.isEmpty_nil, Bool.not_true, Bool.false_or, List.append_nil, List.length_append,
      Option.length_toList, Bool.true_eq_false, or_false, Option.isSome_map]

def reported (sj : SerdeJson) (raw : SseFrame) : Prop :=
  ∃ value, sj.fromStr raw.data = some value ∧
    reportsTwo (frameEventName sj .responses raw) value = true

def givesReason (sj : SerdeJson) (raw : SseFrame) : Prop :=
  ∃ value, sj.fromStr raw.data = some value ∧
    (terminalFinishReason (frameEventName sj .responses raw) value).isSome = true

/-- A terminal name goes with a reason, or the frame is listed and its first event is an end. -/
def ResponsesAgrees (sj : SerdeJson) (raw : SseFrame) (dialect : Dialect) : Prop :=
  let name := frameEventName sj .responses raw
  (name ∉ terminalNames → ¬markerAlone sj .responses raw dialect) ∧
    (name ∈ terminalNames → reported sj raw → givesReason sj raw) ∧
    (name ∈ terminalNames → ¬reported sj raw → listed sj .responses raw dialect ∧
      (marked sj .responses raw ∨
        ∀ value, sj.fromStr raw.data = some value → responsesFinishes name value = true))

theorem responsesTerminal_iff : responsesFrameIsTerminal sj raw = true ↔
    frameEventName sj .responses raw ∈ terminalNames :=
  List.contains_iff_mem

theorem decodeAll_of_terminal {name : String} {value : Value} {events : List IrStreamEvent}
    (hname : name ∈ terminalNames) (h : ResponsesDecoding.decodeAll sj name value = .ok events) :
    events = [] := by
  simp only [terminalNames, List.mem_cons, List.not_mem_nil, or_false] at hname
  unfold ResponsesDecoding.decodeAll at h
  split at h
  · cases h
  · rcases hname with rfl | rfl | rfl <;> cases h <;> rfl

theorem reported_of_some {value : Value} {events : List IrStreamEvent}
    (hname : frameEventName sj .responses raw ∈ terminalNames)
    (hvalue : sj.fromStr raw.data = some value)
    (h : decodeTerminalEvents (frameEventName sj .responses raw) value = some events) :
    reported sj raw := by
  refine ⟨value, hvalue, ?_⟩
  rw [← decodeTerminalEvents_isSome value hname, h]
  rfl

theorem terminalName_of_some {name : String} {value : Value} {events : List IrStreamEvent}
    (h : decodeTerminalEvents name value = some events) : name ∈ terminalNames := by
  unfold decodeTerminalEvents at h
  split at h
  · rename_i hname
    exact List.contains_iff_mem.mp hname
  · cases h

theorem responses_early {first : Except MapError (Option IrStreamEvent)}
    (h : responsesEvents sj first raw = .ok (some xs)) :
    (responsesFrameIsTerminal sj raw = true ↔ xs.any isEnd = true) ↔
      ResponsesAgrees sj raw dialect := by
  unfold responsesEvents at h
  split at h
  · cases h
  · rename_i value hvalue
    simp only at h
    split at h
    · rename_i events hwalk
      cases h
      split at hwalk
      · have hname := terminalName_of_some hwalk
        have hreported := reported_of_some hname hvalue hwalk
        rw [responsesTerminal_iff, terminalEvents_ends hwalk]
        simp [ResponsesAgrees, hname, hreported, givesReason, hvalue]
      · cases hwalk
    · obtain ⟨events, hevents, hsome⟩ := EmittingRuns.map_eq_ok h
      have hnone : orNone events = some xs := by
        split at hsome
        · exact hsome
        · cases hsome
      have hxs := orNone_eq_some hnone
      have hname : frameEventName sj .responses raw ∉ terminalNames := by
        intro hname
        rw [decodeAll_of_terminal hname hevents] at hnone
        cases hnone
      have hsays : ¬saysNothing sj .responses raw := by
        rintro ⟨hearly, _⟩
        unfold earlyEvents responsesEvents at hearly
        have hwalk : decodeTerminalEvents (frameEventName sj .responses raw) value = none := by
          cases hwalk : decodeTerminalEvents (frameEventName sj .responses raw) value with
          | none => rfl
          | some more => exact absurd (terminalName_of_some hwalk) hname
        simp only [hvalue, hwalk, hevents, ite_self, Except.map, standsIn, Except.toOption,
          Option.isSome_some, Bool.true_or, if_true, hnone] at hearly
        cases hearly
      have hquiet : xs.any isEnd = false := by
        rw [hxs]
        exact noEnd_responsesAll hevents
      rw [responsesTerminal_iff, hquiet]
      simp [ResponsesAgrees, hname, markerAlone, hsays]

theorem not_reported (hname : frameEventName sj .responses raw ∈ terminalNames)
    (h : responsesEvents sj (.ok out) raw = .ok none) : ¬reported sj raw := by
  rintro ⟨value, hvalue, htwo⟩
  rw [← decodeTerminalEvents_isSome value hname] at htwo
  obtain ⟨events, hevents⟩ := Option.isSome_iff_exists.mp htwo
  unfold responsesEvents at h
  simp only [hvalue, Except.toOption, Option.isSome_some, if_true, hevents] at h
  cases h

theorem responsesEvents_of_ok :
    responsesEvents sj (.ok out) raw = responsesEvents sj (.ok none) raw := rfl

theorem responses_agrees
    (h : decodeStreamEventsSeq sj .responses raw dialect seq = .ok (xs, next)) :
    (responsesFrameIsTerminal sj raw = true ↔ xs.any isEnd = true) ↔
      ResponsesAgrees sj raw dialect := by
  rcases decodeSeq_cases h with hearly | ⟨hearly, out, hfirst, hfan | ⟨_, hevents⟩⟩
  · exact responses_early hearly
  · cases hfan
  · rw [hfirst] at hearly
    have hnone : responsesEvents sj (.ok out) raw = .ok none := hearly
    rw [eventsOfFirst_ends hevents, responsesTerminal_iff]
    unfold ResponsesAgrees
    by_cases hname : frameEventName sj .responses raw ∈ terminalNames
    · have hreported := not_reported hname hnone
      by_cases hlisted : listed sj .responses raw dialect
      · by_cases hmark : marked sj .responses raw
        · rw [done_of_marker hlisted hmark hfirst]
          simp [hname, hreported, hlisted, hmark]
        · obtain ⟨value, hvalue, hdecode⟩ := first_of_value hlisted hmark hfirst
          rw [responses_ends hdecode]
          simp [hname, hreported, hlisted, hmark, hvalue]
      · have hquiet : out.toList.any isEnd = false := first_of_unlisted hlisted hfirst
        rw [hquiet]
        simp [hname, hreported, hlisted]
    · by_cases hlisted : listed sj .responses raw dialect
      · by_cases hmark : marked sj .responses raw
        · rw [done_of_marker hlisted hmark hfirst]
          have hsays : saysNothing sj .responses raw := ⟨responsesEvents_of_ok.symm.trans hnone, rfl⟩
          simp [hname, markerAlone, hlisted, hmark, hsays]
        · obtain ⟨value, hvalue, hdecode⟩ := first_of_value hlisted hmark hfirst
          rw [responses_ends hdecode, responsesFinishes_of_not_terminal hname]
          simp [hname, markerAlone, hmark]
      · have hquiet : out.toList.any isEnd = false := first_of_unlisted hlisted hfirst
        rw [hquiet]
        simp [hname, markerAlone, hlisted]

end

def fewMetadata (value : Value) : Prop := (ConverseDecoding.decodeMetadataEvents value).length < 2

/-- A terminal frame is listed and its stop reason is reached; no other frame is a lone marker. -/
def ConverseAgrees (sj : SerdeJson) (raw : SseFrame) (dialect : Dialect) : Prop :=
  (∀ value, sj.fromStr raw.data = some value →
    (textAt value ["messageStop", "stopReason"]).isSome = true →
      listed sj .converse raw dialect ∧ fewMetadata value ∧
        (marked sj .converse raw ∨ reachesStop value = true)) ∧
    (converseFrameIsTerminal sj raw = false → ¬markerAlone sj .converse raw dialect)

theorem converseTerminal_of_value {value : Value} (h : sj.fromStr raw.data = some value) :
    converseFrameIsTerminal sj raw = (textAt value ["messageStop", "stopReason"]).isSome := by
  unfold converseFrameIsTerminal
  rw [h]
  rfl

theorem fanOut_of_value {value : Value} (h : sj.fromStr raw.data = some value) :
    fanOutEvents sj .converse raw 0 = none ↔ fewMetadata value := by
  unfold fanOutEvents fewMetadata
  rw [h, Option.bind_some]
  simp only
  split
  · rename_i htwo
    constructor
    · intro hnone
      cases hnone
    · intro hfew
      omega
  · rename_i htwo
    constructor
    · intro _
      omega
    · intro _
      rfl

theorem converse_agrees
    (h : decodeStreamEventsSeq sj .converse raw dialect seq = .ok (xs, next)) :
    (converseFrameIsTerminal sj raw = true ↔ xs.any isEnd = true) ↔
      ConverseAgrees sj raw dialect := by
  rcases decodeSeq_cases h with hearly | ⟨_, out, hfirst, hfan | ⟨hfan, hevents⟩⟩
  · cases hearly
  · obtain ⟨value, hvalue, hsome⟩ := Option.bind_eq_some_iff.mp hfan
    simp only at hsome
    split at hsome
    · rename_i htwo
      cases hsome
      have hquiet : (ConverseDecoding.decodeMetadataEvents value).any isEnd = false :=
        noEnd_metadata value
      have hsays : ¬saysNothing sj .converse raw := by
        rintro ⟨_, hnone⟩
        have hfew := (fanOut_of_value hvalue).mp hnone
        unfold fewMetadata at hfew
        omega
      have hmany : ¬fewMetadata value := by
        unfold fewMetadata
        omega
      rw [hquiet, converseTerminal_of_value hvalue]
      simp [ConverseAgrees, hvalue, hmany, markerAlone, hsays]
    · cases hsome
  · rw [eventsOfFirst_ends hevents]
    have hnone : fanOutEvents sj .converse raw 0 = none := fanOutEvents_none hfan 0
    have hsays : saysNothing sj .converse raw := ⟨rfl, hnone⟩
    by_cases hlisted : listed sj .converse raw dialect
    · by_cases hmark : marked sj .converse raw
      · rw [done_of_marker hlisted hmark hfirst]
        cases hvalue : sj.fromStr raw.data with
        | none =>
          have hterminal : converseFrameIsTerminal sj raw = false := by
            unfold converseFrameIsTerminal
            rw [hvalue]
            rfl
          simp [ConverseAgrees, hterminal, markerAlone, hlisted, hmark, hsays]
        | some value =>
          have hfew := (fanOut_of_value hvalue).mp hnone
          simp [ConverseAgrees, converseTerminal_of_value hvalue, hvalue, markerAlone, hlisted,
            hmark, hsays, hfew, Option.isSome_iff_ne_none]
      · obtain ⟨value, hvalue, hdecode⟩ := first_of_value hlisted hmark hfirst
        have hfew := (fanOut_of_value hvalue).mp hnone
        rw [converse_ends hdecode, converseTerminal_of_value hvalue]
        simp [ConverseAgrees, hvalue, markerAlone, hlisted, hmark, hfew, converseFinishes]
    · have hquiet : out.toList.any isEnd = false := first_of_unlisted hlisted hfirst
      rw [hquiet]
      cases hvalue : sj.fromStr raw.data with
      | none =>
        have hterminal : converseFrameIsTerminal sj raw = false := by
          unfold converseFrameIsTerminal
          rw [hvalue]
          rfl
        simp [ConverseAgrees, hterminal, hvalue, markerAlone, hlisted]
      | some value =>
        simp [ConverseAgrees, converseTerminal_of_value hvalue, hvalue, markerAlone, hlisted]

def GeminiAgrees (sj : SerdeJson) (raw : SseFrame) (dialect : Dialect) : Prop :=
  ¬markerAlone sj .gemini raw dialect

theorem isSome_nonempty (text : Option String) :
    (nonempty text).isSome = text.any fun t => !t.isEmpty := by
  unfold nonempty
  cases text with
  | none => rfl
  | some t => cases hempty : t.isEmpty <;> simp [Option.filter, hempty]

theorem geminiTerminal_of_value {value : Value} (h : sj.fromStr raw.data = some value) :
    geminiFrameIsTerminal sj raw = geminiFinishes value := by
  unfold geminiFrameIsTerminal geminiFinishes GeminiDecoding.finishReasonText
    GeminiDecoding.blockReason
  rw [h, Option.any_some, nonemptyAt_eq, isSome_nonempty, isSome_nonempty]
  congr 1
  unfold GeminiDecoding.candidateTextAt GeminiDecoding.candidateAt
  cases firstCandidate value with
  | none => rfl
  | some candidate =>
    rw [Option.any_some, Option.bind_some, pointer?_singleton]
    unfold nonemptyStr isText
    cases candidate.get? "finishReason" <;> rfl

theorem geminiTerminal_of_none (h : sj.fromStr raw.data = none) :
    geminiFrameIsTerminal sj raw = false := by
  unfold geminiFrameIsTerminal
  rw [h]
  rfl

theorem gemini_agrees (h : decodeStreamEventsSeq sj .gemini raw dialect seq = .ok (xs, next)) :
    (geminiFrameIsTerminal sj raw = true ↔ xs.any isEnd = true) ↔
      GeminiAgrees sj raw dialect := by
  rcases decodeSeq_cases h with hearly | ⟨_, out, hfirst, hfan | ⟨hfan, hevents⟩⟩
  · cases hearly
  · obtain ⟨value, hvalue, hsome⟩ := Option.bind_eq_some_iff.mp hfan
    have hsays : ¬saysNothing sj .gemini raw := by
      rintro ⟨_, hnone⟩
      rw [fanOutEvents_none hnone seq] at hfan
      cases hfan
    rw [geminiTerminal_of_value hvalue, fanOut_ends hsome]
    simp [GeminiAgrees, markerAlone, hsays]
  · rw [eventsOfFirst_ends hevents]
    have hsays : saysNothing sj .gemini raw := ⟨rfl, fanOutEvents_none hfan 0⟩
    have hterminal : geminiFrameIsTerminal sj raw = false := by
      cases hvalue : sj.fromStr raw.data with
      | none => exact geminiTerminal_of_none hvalue
      | some value =>
        rw [geminiTerminal_of_value hvalue]
        unfold fanOutEvents at hfan
        rw [hvalue] at hfan
        exact geminiFinishes_of_fanOut_none hfan
    rw [hterminal]
    by_cases hlisted : listed sj .gemini raw dialect
    · by_cases hmark : marked sj .gemini raw
      · rw [done_of_marker hlisted hmark hfirst]
        simp [GeminiAgrees, markerAlone, hlisted, hmark, hsays]
      · obtain ⟨value, hvalue, hdecode⟩ := first_of_value hlisted hmark hfirst
        rw [geminiTerminal_of_value hvalue] at hterminal
        have hquiet : out.toList.any isEnd = false := by
          cases out with
          | none => rfl
          | some ev =>
            cases hend : isEnd ev with
            | false => simp [hend]
            | true =>
              rw [endsOnlyIf_gemini hdecode ev rfl hend] at hterminal
              cases hterminal
        rw [hquiet]
        simp [GeminiAgrees, markerAlone, hmark]
    · have hquiet : out.toList.any isEnd = false := first_of_unlisted hlisted hfirst
      rw [hquiet]
      simp [GeminiAgrees, markerAlone, hlisted]

/-- When the terminal test of a frame says what its decoded events say. -/
def Agrees (sj : SerdeJson) (wire : Wire) (raw : SseFrame) (dialect : Dialect) : Prop :=
  match wire with
  | .chatCompletions => ChatAgrees sj raw dialect
  | .messages => MessagesAgrees sj raw dialect
  | .responses => ResponsesAgrees sj raw dialect
  | .gemini => GeminiAgrees sj raw dialect
  | .converse => ConverseAgrees sj raw dialect

theorem frame_agrees (h : decodeStreamEventsSeq sj wire raw dialect seq = .ok (xs, next)) :
    (frameIsTerminal sj wire raw = true ↔ xs.any isEnd = true) ↔ Agrees sj wire raw dialect := by
  cases wire with
  | chatCompletions => exact chat_agrees h
  | messages => exact messages_agrees h
  | responses => exact responses_agrees h
  | gemini => exact gemini_agrees h
  | converse => exact converse_agrees h

/-- The events of a stream whose frames are all accepted. -/
def decodeFrames (sj : SerdeJson) (wire : Wire) (dialect : Dialect) (d : StreamDecoder) :
    List SseFrame → Except MapError (List IrStreamEvent)
  | [] => .ok []
  | raw :: rest =>
    match d.decode sj wire raw dialect with
    | (.error e, _) => .error e
    | (.ok events, d) => (decodeFrames sj wire dialect d rest).map fun more => events ++ more

theorem stream_agrees {frames : List SseFrame} {d : StreamDecoder}
    (hagree : ∀ raw ∈ frames, Agrees sj wire raw dialect)
    (h : decodeFrames sj wire dialect d frames = .ok xs) :
    frames.any (frameIsTerminal sj wire) = xs.any isEnd := by
  induction frames generalizing d xs with
  | nil =>
    cases h
    rfl
  | cons raw rest ih =>
    unfold decodeFrames StreamDecoder.decode at h
    cases hframe : decodeStreamEventsSeq sj wire raw dialect d.geminiCallSeq with
    | error e =>
      rw [hframe] at h
      cases h
    | ok found =>
      obtain ⟨events, seq⟩ := found
      rw [hframe] at h
      obtain ⟨more, hmore, rfl⟩ := EmittingRuns.map_eq_ok h
      have hhead : frameIsTerminal sj wire raw = events.any isEnd :=
        Bool.eq_iff_iff.mpr ((frame_agrees hframe).mpr (hagree raw List.mem_cons_self))
      rw [List.any_cons, List.any_append, hhead,
        ih (fun raw hraw => hagree raw (List.mem_cons_of_mem _ hraw)) hmore]

theorem decodeSeq_of_decode (h : decodeStreamEvents sj wire raw dialect = .ok xs) :
    ∃ next, decodeStreamEventsSeq sj wire raw dialect 0 = .ok (xs, next) := by
  obtain ⟨⟨events, next⟩, hseq, rfl⟩ := EmittingRuns.map_eq_ok h
  exact ⟨next, hseq⟩

/-- The terminal test of an accepted frame says what the decoded events say exactly
for the frames that agree, and then both paths see the same streams end. -/
theorem terminal_iff_decoded (sj : SerdeJson) (wire : Wire) (dialect : Dialect) :
    (∀ raw events, decodeStreamEvents sj wire raw dialect = .ok events →
      ((frameIsTerminal sj wire raw = true ↔ events.any isEnd = true) ↔
        Agrees sj wire raw dialect)) ∧
    ∀ frames events, (∀ raw ∈ frames, Agrees sj wire raw dialect) →
      decodeFrames sj wire dialect {} frames = .ok events →
        frames.any (frameIsTerminal sj wire) = events.any isEnd := by
  constructor
  · intro raw events h
    obtain ⟨next, hseq⟩ := decodeSeq_of_decode h
    exact frame_agrees hseq
  · exact fun frames events hagree h => stream_agrees hagree h

/-- `{"delta":{"stop_reason":"end_turn"}}`, as its event. -/
def stopFrame : SseFrame where
  event := some "message_delta"
  data := "\x7b\"delta\":\x7b\"stop_reason\":\"end_turn\"\x7d\x7d"

def emptyStopFrame : SseFrame where
  event := some "message_delta"
  data := "\x7b\"delta\":\x7b\"stop_reason\":\"\"\x7d\x7d"

def stopValue (reason : String) : Value := .object [("delta", .object [("stop_reason", .string reason)])]

/-- `serde_json` on those texts. -/
def stopJson : SerdeJson where
  fromStr text :=
    if text = stopFrame.data then some (stopValue "end_turn")
    else if text = emptyStopFrame.data then some (stopValue "")
    else none
  toString _ := "{}"

def stopDialect : Dialect := ⟨["message_delta", "message_stop"], .hardError⟩

theorem decode_stopFrame : decodeStreamEvents stopJson .messages stopFrame stopDialect =
    .ok [.finishReason "stop" none] := rfl

theorem isTerminal_stopFrame : frameIsTerminal stopJson .messages stopFrame = true := by
  decide +kernel

theorem agrees_stopFrame : Agrees stopJson .messages stopFrame stopDialect := by
  obtain ⟨next, hseq⟩ := decodeSeq_of_decode decode_stopFrame
  exact (frame_agrees hseq).mp (iff_of_true isTerminal_stopFrame rfl)

theorem terminal_iff_decoded_stop :
    ((frameIsTerminal stopJson .messages stopFrame = true ↔
        [IrStreamEvent.finishReason "stop" none].any isEnd = true) ↔
      Agrees stopJson .messages stopFrame stopDialect) ∧
    [stopFrame].any (frameIsTerminal stopJson .messages) =
      [IrStreamEvent.finishReason "stop" none].any isEnd :=
  ⟨(terminal_iff_decoded stopJson .messages stopDialect).1 stopFrame _ decode_stopFrame,
    (terminal_iff_decoded stopJson .messages stopDialect).2 [stopFrame] _
      (fun _ hraw => List.mem_singleton.mp hraw ▸ agrees_stopFrame) rfl⟩

/-- An empty stop reason is decoded to a finish, but its frame is not terminal. -/
theorem empty_stop_reason_is_no_terminal : ¬ ∀ (sj : SerdeJson) (wire : Wire) (raw : SseFrame)
    (dialect : Dialect) (events : List IrStreamEvent),
    decodeStreamEvents sj wire raw dialect = .ok events →
      (frameIsTerminal sj wire raw = true ↔ events.any isEnd = true) := by
  intro hall
  have hdecode : decodeStreamEvents stopJson .messages emptyStopFrame stopDialect =
      .ok [.finishReason "" none] := rfl
  have hquiet : frameIsTerminal stopJson .messages emptyStopFrame = false := by decide +kernel
  have hterminal := (hall stopJson .messages emptyStopFrame stopDialect _ hdecode).mpr rfl
  rw [hquiet] at hterminal
  cases hterminal

end Wiremux.TerminalAgreement
