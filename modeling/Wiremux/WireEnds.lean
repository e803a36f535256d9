import Wiremux.TerminalEvents

set_option autoImplicit false

/-!
# The ends each wire decodes

For Messages, Responses, Converse and Gemini: the events of a frame end the
stream exactly where these fields of its data say so.
-/
namespace Wiremux.WireEnds
open JsonValue StreamEvents Completion Upstream FrameDecoding TerminalEvents

section
open MessagesDecoding

def messagesFinishes (name : String) (value : Value) : Bool :=
  name == "message_stop" ||
    (name == "message_delta" && (textAt value ["delta", "stop_reason"]).isSome)

theorem noEnd_webSearch (usage : Value) : NoEnd (messagesWebSearchEvents usage) := by
  refine noEnd_filterMap ?_
  rintro ⟨key, itemType⟩ e he
  exact isEnd_of_map (fun _ => rfl) he

theorem noEnd_cacheCreation (usage : Value) : NoEnd (messagesCacheCreationEvents usage) := by
  unfold messagesCacheCreationEvents
  split
  · rfl
  · exact noEnd_ite rfl rfl

theorem noEnd_toList_ite {c : Prop} [Decidable c] {ev : Option IrStreamEvent} (h : NoEnd ev.toList) :
    NoEnd (if c then ev else none).toList := by
  split
  · exact h
  · rfl

theorem frameEvents_ends (name : String) (value : Value) (first : IrStreamEvent) :
    (frameEvents name value first).any isEnd = isEnd first := by
  have hquiet {α : Type} (a : Option α) (f : α → IrStreamEvent) (h : ∀ a, isEnd (f a) = false) :
      (a.map f).toList.any isEnd = false := noEnd_toList_map h
  have hite {α : Type} (c : Prop) [Decidable c] (a : Option α) (f : α → IrStreamEvent)
      (h : ∀ a, isEnd (f a) = false) : (if c then a.map f else none).toList.any isEnd = false :=
    noEnd_toList_ite (noEnd_toList_map h)
  have hsearch (usage : Value) : (messagesWebSearchEvents usage).any isEnd = false :=
    noEnd_webSearch usage
  have hcreation (usage : Value) : (messagesCacheCreationEvents usage).any isEnd = false :=
    noEnd_cacheCreation usage
  simp only [frameEvents, List.any_append, List.any_cons, List.any_nil, Bool.or_false]
  rw [hite _ _ _ fun _ => rfl, hquiet _ _ fun _ => rfl, hite _ _ _ fun _ => rfl,
    hite _ _ _ fun _ => rfl, hite _ _ _ fun _ => rfl, hite _ _ _ fun _ => rfl,
    hite _ _ _ fun _ => rfl, hite _ _ _ fun _ => rfl]
  split
  · simp only [List.any_append, hsearch, hcreation, Bool.false_or, Bool.or_false]
  · simp only [List.any_nil, Bool.false_or, Bool.or_false]

theorem isEnd_decodeMessageDelta (name : String) (value : Value) :
    isEnd (decodeMessageDelta name value) = (textAt value ["delta", "stop_reason"]).isSome := by
  unfold decodeMessageDelta
  split
  · rename_i reason hreason
    rw [hreason]
    rfl
  · rename_i hreason
    rw [hreason]
    split
    · rfl
    · split <;> rfl

theorem isEnd_imageDeltaFromBlock {block : Value} {e : IrStreamEvent}
    (h : imageDeltaFromBlock block = some e) : isEnd e = false := by
  obtain ⟨source, _, hout⟩ := Option.bind_eq_some_iff.mp h
  split at hout
  · obtain ⟨data, _, hdata⟩ := Option.bind_eq_some_iff.mp hout
    exact isEnd_of_map (fun _ => rfl) hdata
  · cases hout

theorem noEnd_decodeBlockStart (name : String) (value : Value) :
    NoEnd (decodeBlockStart name value).toList := by
  unfold decodeBlockStart
  simp only
  split
  · rfl
  · cases himage : imageDeltaFromBlock ((value.get? "content_block").getD value) with
    | none => rfl
    | some e => exact noEnd_singleton.mpr (isEnd_imageDeltaFromBlock himage)
  · exact noEnd_toList_map fun _ => rfl
  · rfl

theorem noEnd_decodeBlockDelta (name : String) (value : Value) :
    NoEnd (decodeBlockDelta name value).toList := by
  unfold decodeBlockDelta
  simp only
  split
  · exact noEnd_toList_map fun _ => rfl
  · exact noEnd_toList_map fun _ => rfl
  · exact noEnd_toList_map fun _ => rfl
  · rfl
  · split
    · rfl
    · exact noEnd_toList_map fun _ => rfl
  · rfl

theorem messages_ends {name : String} {value : Value} {out : Option IrStreamEvent}
    (h : decode name value = .ok out) : out.toList.any isEnd = messagesFinishes name value := by
  unfold decode at h
  split at h
  · cases h
    rfl
  · cases h
  · cases h
    rfl
  · split at h <;> cases h <;> rfl
  · obtain ⟨_, _, rfl⟩ := EmittingRuns.map_eq_ok h
    exact noEnd_decodeBlockStart _ value
  · obtain ⟨_, _, rfl⟩ := EmittingRuns.map_eq_ok h
    exact noEnd_decodeBlockDelta _ value
  · obtain ⟨_, _, rfl⟩ := EmittingRuns.map_eq_ok h
    rfl
  · cases h
    simp [isEnd_decodeMessageDelta, messagesFinishes]
  · rename_i hstop _ _ _ _ hdelta
    cases h
    rw [messagesFinishes, beq_false_of_ne hstop, beq_false_of_ne hdelta]
    rfl

end

section
open ChatDecoding ResponsesDecoding
variable {sj : SerdeJson} {name : String} {value : Value} {xs : List IrStreamEvent}
  {out : Option IrStreamEvent}

theorem noEnd_replayOutputItem (item : Value) : NoEnd (replayOutputItem item) := by
  unfold replayOutputItem
  exact noEnd_ite rfl rfl

theorem noEnd_fieldEvent (item : Value) (key kind : String) : NoEnd (fieldEvent item key kind) :=
  noEnd_toList_map fun _ => rfl

theorem noEnd_reasoningIdentity (item : Value) : NoEnd (reasoningItemIdentityEvents item) := by
  unfold reasoningItemIdentityEvents
  refine noEnd_ite ?_ rfl
  simp only [noEnd_append]
  exact ⟨⟨noEnd_fieldEvent item _ _, noEnd_fieldEvent item _ _⟩, noEnd_ite rfl rfl⟩

theorem noEnd_terminalItem (item : Value) : NoEnd (terminalItemEvents item) :=
  noEnd_append.mpr ⟨noEnd_ite (noEnd_reasoningIdentity item) rfl, noEnd_replayOutputItem item⟩

theorem isEnd_imageDelta {part : Value} {e : IrStreamEvent}
    (h : imageDeltaFromOutputImage part = some e) : isEnd e = false := by
  unfold imageDeltaFromOutputImage at h
  split at h
  · obtain ⟨url, _, hurl⟩ := Option.bind_eq_some_iff.mp h
    exact isEnd_imageOfDataUrl hurl
  · cases h

theorem noEnd_partImage (part : Value) :
    NoEnd ((imageDeltaFromOutputImage part).orElse fun _ =>
      if part.strAt? "type" = some "output_image" then some (protocol "output_image" part)
      else none).toList := by
  cases himage : imageDeltaFromOutputImage part with
  | none => exact noEnd_toList_ite rfl
  | some e => exact noEnd_singleton.mpr (isEnd_imageDelta himage)

theorem noEnd_responsesPart (part : Value) : NoEnd (responsesPartEvents part) := by
  simp only [responsesPartEvents, audioEventsFromOutputPart, noEnd_append]
  exact ⟨⟨⟨noEnd_toList_ite (noEnd_toList_map fun _ => rfl),
    noEnd_toList_ite (noEnd_toList_map fun _ => rfl)⟩, noEnd_partImage part⟩,
    noEnd_ite (noEnd_append.mpr ⟨noEnd_toList_map fun _ => rfl, noEnd_toList_map fun _ => rfl⟩) rfl⟩

theorem noEnd_messageContent (item : Value) : NoEnd (messageContentEvents item) := by
  simp only [messageContentEvents, messageItemIdentityEvents, noEnd_append]
  exact ⟨⟨⟨⟨noEnd_fieldEvent item _ _, noEnd_fieldEvent item _ _⟩, noEnd_fieldEvent item _ _⟩,
    noEnd_toList_map fun _ => rfl⟩, noEnd_flatMap noEnd_responsesPart⟩

theorem noEnd_toolItem (item : Value) (index : ℕ) : NoEnd (toolItemEvents item index) := by
  have hid : NoEnd (toolItemIdEvent item index).toList := by
    refine noEnd_toList fun e he => ?_
    obtain ⟨itemId, _, hrest⟩ := Option.bind_eq_some_iff.mp he
    obtain ⟨callId, _, hout⟩ := Option.bind_eq_some_iff.mp hrest
    split at hout
    · cases hout
    · cases hout
      rfl
  simp only [toolItemEvents, noEnd_append]
  exact ⟨⟨⟨⟨hid, noEnd_toList_map fun _ => rfl⟩, noEnd_toList_map fun _ => rfl⟩,
    noEnd_toList_map fun _ => rfl⟩, noEnd_toList_map fun _ => rfl⟩

theorem noEnd_slots (value : Value) : NoEnd (responseSlotEvents value) := by
  simp only [responseSlotEvents, noEnd_append]
  exact ⟨⟨⟨⟨⟨noEnd_toList_map fun _ => rfl, noEnd_toList_map fun _ => rfl⟩,
    noEnd_toList_map fun _ => rfl⟩, noEnd_toList_map fun _ => rfl⟩,
    noEnd_toList fun _ => isEnd_metadata⟩, noEnd_toList fun _ => isEnd_moderation⟩

theorem noEnd_addedCall {key : String} {start : String → String → ℕ → IrStreamEvent}
    {argument : String → ℕ → IrStreamEvent} (hstart : ∀ i n k, isEnd (start i n k) = false)
    (hargument : ∀ t k, isEnd (argument t k) = false)
    (h : addedCallEvents sj value key start argument = .ok xs) : NoEnd xs := by
  obtain ⟨args, _, rfl⟩ := EmittingRuns.map_eq_ok h
  simp only [noEnd_append]
  exact ⟨⟨noEnd_toolItem _ _, noEnd_singleton.mpr (hstart _ _ _)⟩,
    noEnd_toList_map fun _ => hargument _ _⟩

theorem noEnd_addedReasoning (item : Value) : NoEnd (addedReasoningEvents item) := by
  simp only [addedReasoningEvents, noEnd_append]
  refine ⟨⟨?_, noEnd_ite (noEnd_reasoningIdentity item) rfl⟩, noEnd_replayOutputItem item⟩
  split
  · rfl
  · exact noEnd_toList_map fun _ => rfl

theorem noEnd_addedItem (h : addedItemEvents sj value = .ok xs) : NoEnd xs := by
  unfold addedItemEvents at h
  split at h
  · exact noEnd_addedCall (fun _ _ _ => rfl) (fun _ _ => rfl) h
  · exact noEnd_addedCall (fun _ _ _ => rfl) (fun _ _ => rfl) h
  · cases h
    exact noEnd_messageContent _
  · cases h
    exact noEnd_addedReasoning _
  · cases h
    exact noEnd_replayOutputItem _

theorem noEnd_responsesAll (h : ResponsesDecoding.decodeAll sj name value = .ok xs) : NoEnd xs := by
  unfold ResponsesDecoding.decodeAll at h
  split at h
  · cases h
  · split at h
    · cases h
      exact noEnd_slots value
    · exact noEnd_addedItem h
    · cases h
      exact noEnd_responsesPart _
    · cases h
      exact noEnd_append.mpr ⟨noEnd_toList_map fun _ => rfl, noEnd_toList_map fun _ => rfl⟩
    · cases h
      rfl

theorem terminalEvents_ends (h : decodeTerminalEvents name value = some xs) :
    xs.any isEnd = (terminalFinishReason name value).isSome := by
  have hitems : ((items (pointer? value ["response", "output"])).flatMap terminalItemEvents).any isEnd
      = false := noEnd_flatMap noEnd_terminalItem
  have husage : ((objectAt value ["response", "usage"]).map fun usage =>
      usageEvent (UsageDecoding.fromResponses usage)).toList.any isEnd = false :=
    noEnd_toList_map fun _ => rfl
  have hslots : (responseSlotEvents value).any isEnd = false := noEnd_slots value
  unfold decodeTerminalEvents at h
  split at h
  · simp only at h
    split at h
    · cases h
      simp only [List.any_append, hitems, husage, hslots, Bool.false_or, Bool.or_false]
      cases terminalFinishReason name value <;> rfl
    · cases h
  · cases h

def cancelled (value : Value) : Bool :=
  textAt value ["response", "status"] == some "cancelled" ||
    textAt value ["response", "status"] == some "canceled"

/-- The finish a terminal frame has on its own: a completed one shows its usage first. -/
def responsesFinishes (name : String) (value : Value) : Bool :=
  name == "response.failed" || name == "response.incomplete" ||
    (name == "response.completed" &&
      (cancelled value || (pointer? value ["response", "usage"]).isNone))

theorem isEnd_decodeCompleted (value : Value) : isEnd (decodeCompleted value) =
    (cancelled value || (pointer? value ["response", "usage"]).isNone) := by
  unfold decodeCompleted cancelled
  split
  · rename_i hstatus
    rcases hstatus with hstatus | hstatus <;> simp [hstatus, isEnd]
  · rename_i hstatus
    obtain ⟨hone, hother⟩ := not_or.mp hstatus
    rw [beq_false_of_ne hone, beq_false_of_ne hother]
    cases pointer? value ["response", "usage"] <;> rfl

theorem decodeFailed_ends (h : decodeFailed value = .ok out) : out.toList.any isEnd = true := by
  unfold decodeFailed at h
  split at h
  · cases h
  · cases h
    rfl

theorem unlessBareError_ok {next : Except MapError (Option IrStreamEvent)}
    (h : unlessBareError value next = .ok out) : next = .ok out := by
  unfold unlessBareError at h
  split at h
  · cases h
  · exact h

theorem noEnd_head? (h : NoEnd xs) : NoEnd xs.head?.toList :=
  noEnd_toList fun e he => noEnd_iff.mp h e (List.mem_of_head? he)

theorem isEnd_head?_getD (h : NoEnd xs) (kind : String) (v : Value) :
    isEnd (xs.head?.getD (protocol kind v)) = false := by
  cases xs with
  | nil => rfl
  | cons e rest => exact (noEnd_cons.mp h).1

theorem noEnd_decodeReplay (h : decodeReplay name value = .ok out) : NoEnd out.toList := by
  unfold decodeReplay at h
  simp only at h
  split at h
  · cases h
  · cases h
    exact noEnd_singleton.mpr (isEnd_head?_getD (noEnd_replayOutputItem _) _ _)

theorem noEnd_decodeCallItem {key : String} {start : String → String → ℕ → IrStreamEvent}
    (hstart : ∀ i n k, isEnd (start i n k) = false)
    (h : decodeCallItem sj value key start = .ok out) : NoEnd out.toList := by
  unfold decodeCallItem at h
  simp only at h
  split at h
  · cases h
  · obtain ⟨_, _, rfl⟩ := EmittingRuns.map_eq_ok h
    exact noEnd_singleton.mpr (hstart _ _ _)

theorem noEnd_decodeMessageItem (h : decodeMessageItem name value = .ok out) :
    NoEnd out.toList := by
  unfold decodeMessageItem at h
  simp only at h
  split at h
  · cases h
  · cases h
    exact noEnd_singleton.mpr (isEnd_head?_getD (noEnd_messageContent _) _ _)

theorem isEnd_decodeReasoningItem (name : String) (value : Value) :
    isEnd (decodeReasoningItem name value) = false := by
  unfold decodeReasoningItem
  split
  · rfl
  · split <;> rfl

theorem noEnd_decodeItemAdded (h : decodeItemAdded sj name value = .ok out) :
    NoEnd out.toList := by
  unfold decodeItemAdded at h
  split at h
  · exact noEnd_decodeCallItem (fun _ _ _ => rfl) h
  · exact noEnd_decodeCallItem (fun _ _ _ => rfl) h
  · cases h
    exact noEnd_singleton.mpr (isEnd_decodeReasoningItem name value)
  · exact noEnd_decodeMessageItem h
  · exact noEnd_decodeReplay h

theorem noEnd_decodeItemDone (h : decodeItemDone name value = .ok out) : NoEnd out.toList := by
  unfold decodeItemDone at h
  split at h
  · cases h
    rfl
  · cases h
    rfl
  · exact noEnd_decodeReplay h

theorem noEnd_annotation (name : String) (value : Value) :
    NoEnd [match objectAt value ["annotation"] with
      | some annotation => .annotationAdded annotation
      | none => protocol name value] := by
  cases objectAt value ["annotation"] <;> rfl

theorem noEnd_outputText (value : Value) :
    NoEnd (((nonemptyDelta value).map IrStreamEvent.textDelta).orElse fun _ =>
      (logprobsArray value).map fun content => .logprobs content none).toList := by
  cases nonemptyDelta value with
  | none => exact noEnd_toList_map fun _ => rfl
  | some text => rfl

theorem noEnd_decodeNamed (hname : name ∉ terminalNames) (h : decodeNamed sj name value = .ok out) :
    NoEnd out.toList := by
  unfold decodeNamed at h
  split at h
  · cases h
    exact noEnd_outputText value
  · cases h
    exact noEnd_toList_map fun _ => rfl
  · cases h
    exact noEnd_toList_map fun _ => rfl
  · cases h
    exact noEnd_toList_map fun _ => rfl
  · cases h
    exact noEnd_toList_map fun _ => rfl
  · cases h
    rfl
  · cases h
    exact noEnd_annotation _ value
  · cases h
    exact noEnd_toList_map fun _ => rfl
  · cases h
    exact noEnd_toList_map fun _ => rfl
  · cases h
    rfl
  · split at h
    · cases h
    · cases h
      exact noEnd_head? (noEnd_responsesPart _)
  · exact noEnd_decodeItemAdded h
  · exact noEnd_decodeItemDone h
  · exact absurd (by decide) hname
  · exact absurd (by decide) hname
  · exact absurd (by decide) hname
  · cases h
  · have hout := unlessBareError_ok h
    split at hout
    · cases hout
      rfl
    · cases hout
      rfl

theorem responsesFinishes_of_not_terminal (hname : name ∉ terminalNames) :
    responsesFinishes name value = false := by
  simp only [terminalNames, List.mem_cons, List.not_mem_nil, or_false, not_or] at hname
  simp [responsesFinishes, hname]

theorem decodeNamed_ends (h : decodeNamed sj name value = .ok out) :
    out.toList.any isEnd = responsesFinishes name value := by
  by_cases hname : name ∈ terminalNames
  · simp only [terminalNames, List.mem_cons, List.not_mem_nil, or_false] at hname
    rcases hname with rfl | rfl | rfl
    · have hout := unlessBareError_ok h
      cases hout
      simp [isEnd_decodeCompleted, responsesFinishes]
    · have hout := unlessBareError_ok h
      cases hout
      simp [responsesFinishes, isEnd]
    · rw [decodeFailed_ends (unlessBareError_ok h)]
      simp [responsesFinishes]
  · rw [responsesFinishes_of_not_terminal hname]
    exact noEnd_decodeNamed hname h

theorem responses_ends (h : ResponsesDecoding.decode sj name value = .ok out) :
    out.toList.any isEnd = responsesFinishes name value := by
  unfold ResponsesDecoding.decode at h
  split at h
  · cases h
  · exact decodeNamed_ends h

end

section
open ConverseDecoding
variable {value : Value} {out : Option IrStreamEvent}

def spokenDelta (value : Value) : Option (Except MapError IrStreamEvent) :=
  (pointer? value ["contentBlockDelta", "delta"]).bind (decodeDelta value)

def reachesStop (value : Value) : Bool :=
  (spokenDelta value).isNone && (decodeStart value).isNone &&
    (value.get? "contentBlockStop").isNone

def converseFinishes (value : Value) : Bool :=
  reachesStop value && (textAt value ["messageStop", "stopReason"]).isSome

def Speaks (found : Option (Except MapError IrStreamEvent)) : Prop :=
  ∀ r e, found = some r → r = .ok e → isEnd e = false

theorem Speaks.map {α : Type} {a : Option α} {f : α → IrStreamEvent}
    (hf : ∀ a, isEnd (f a) = false) : Speaks (a.map fun a => .ok (f a)) := by
  intro r e hr he
  obtain ⟨a, _, rfl⟩ := Option.map_eq_some_iff.mp hr
  cases he
  exact hf a

theorem Speaks.orElse {a : Option (Except MapError IrStreamEvent)}
    {b : Unit → Option (Except MapError IrStreamEvent)} (ha : Speaks a) (hb : Speaks (b ())) :
    Speaks (a.orElse b) := by
  cases a with
  | none => exact hb
  | some r => exact ha

theorem speaks_decodeDelta (value delta : Value) : Speaks (decodeDelta value delta) := by
  refine .orElse (.map fun _ => rfl) (.orElse (.map fun _ => rfl) (.orElse (.map fun _ => rfl)
    (.orElse (.map fun _ => rfl) (.orElse ?_ ?_))))
  · intro r e hr he
    obtain ⟨input, _, rfl⟩ := Option.map_eq_some_iff.mp hr
    obtain ⟨index, _, rfl⟩ := EmittingRuns.map_eq_ok he
    rfl
  · intro r e hr he
    obtain ⟨citation, _, rfl⟩ := Option.map_eq_some_iff.mp hr
    split at he <;> cases he <;> rfl

theorem isEnd_converseImage {image : Value} {e : IrStreamEvent}
    (h : imageDeltaFromConverse image = some e) : isEnd e = false := by
  obtain ⟨data, _, hout⟩ := Option.bind_eq_some_iff.mp h
  exact isEnd_of_map (fun _ => rfl) hout

theorem eq_or_of_orElse {α : Type} {a : Option α} {b : Unit → Option α} {x : α}
    (h : a.orElse b = some x) : a = some x ∨ b () = some x := by
  cases a with
  | none => exact .inr h
  | some y => exact .inl h

theorem noEnd_decodeStart {found : Except MapError (Option IrStreamEvent)}
    (h : decodeStart value = some found) (hout : found = .ok out) : NoEnd out.toList := by
  obtain ⟨start, _, hfound⟩ := Option.bind_eq_some_iff.mp h
  rcases eq_or_of_orElse hfound with htool | hmedia
  · obtain ⟨tool, _, rfl⟩ := Option.map_eq_some_iff.mp htool
    obtain ⟨index, _, rfl⟩ := EmittingRuns.map_eq_ok hout
    rfl
  · rcases eq_or_of_orElse hmedia with himage | haudio
    · obtain ⟨image, _, rfl⟩ := Option.map_eq_some_iff.mp himage
      cases hout
      exact noEnd_toList fun _ => isEnd_converseImage
    · obtain ⟨audio, _, rfl⟩ := Option.map_eq_some_iff.mp haudio
      cases hout
      exact noEnd_toList_map fun _ => rfl

theorem noEnd_afterStop (value : Value) : NoEnd
    (match pointer? value ["metadata", "usage"] with
      | some usage => some (usageEvent (UsageDecoding.usageFromConverse usage))
      | none =>
        match serviceTierFrom value with
        | some tier => some (.serviceTier tier)
        | none =>
          if (value.get? "messageStart").isSome then none
          else some (.unknown "converse" value)).toList := by
  split
  · rfl
  · split
    · rfl
    · split <;> rfl

theorem decodeBracket_ends (value : Value) : (decodeBracket value).toList.any isEnd =
    ((value.get? "contentBlockStop").isNone &&
      (textAt value ["messageStop", "stopReason"]).isSome) := by
  unfold decodeBracket
  cases value.get? "contentBlockStop" with
  | some v => rfl
  | none =>
    cases textAt value ["messageStop", "stopReason"] with
    | some stop => rfl
    | none => exact noEnd_afterStop value

theorem converse_ends (h : decode value = .ok out) :
    out.toList.any isEnd = converseFinishes value := by
  unfold decode at h
  unfold converseFinishes reachesStop
  split at h
  · cases h
  · split at h
    · rename_i found hfound
      obtain ⟨e, he, rfl⟩ := EmittingRuns.map_eq_ok h
      have hspoken : spokenDelta value = some found := hfound
      obtain ⟨delta, _, hdelta⟩ := Option.bind_eq_some_iff.mp hfound
      rw [hspoken]
      exact noEnd_singleton.mpr (speaks_decodeDelta value delta found e hdelta he)
    · rename_i hspoken
      have hnone : spokenDelta value = none := hspoken
      rw [hnone]
      split at h
      · rename_i found hstart
        rw [hstart]
        exact noEnd_decodeStart hstart h
      · rename_i hstart
        cases h
        rw [hstart, decodeBracket_ends]
        rfl

theorem noEnd_metadata (value : Value) : NoEnd (decodeMetadataEvents value) := by
  simp only [decodeMetadataEvents, noEnd_append]
  exact ⟨⟨noEnd_toList_map fun _ => rfl, noEnd_filterMap fun _ _ => isEnd_of_map fun _ => rfl⟩,
    noEnd_toList_map fun _ => rfl⟩

end

section
open GeminiDecoding
variable {sj : SerdeJson} {value : Value}

theorem inlineData_cases {part : Value} {e : IrStreamEvent} (h : inlineDataEvent part = some e) :
    (∃ data, e = .audioDelta data) ∨ ∃ mime data, e = .imageDelta mime data := by
  obtain ⟨inline, _, hinline⟩ := Option.bind_eq_some_iff.mp h
  obtain ⟨data, _, hout⟩ := Option.bind_eq_some_iff.mp hinline
  split at hout
  · exact .inl ⟨data, (Option.some.inj hout).symm⟩
  · split at hout
    · exact .inr ⟨_, data, (Option.some.inj hout).symm⟩
    · cases hout

theorem isEnd_inlineData {part : Value} {e : IrStreamEvent} (h : inlineDataEvent part = some e) :
    isEnd e = false := by
  rcases inlineData_cases h with ⟨data, rfl⟩ | ⟨mime, data, rfl⟩ <;> rfl

theorem noEnd_thought (part : Value) : NoEnd (thoughtEvent part).toList :=
  noEnd_toList_ite (noEnd_toList_map fun _ => rfl)

theorem noEnd_signature (part : Value) : NoEnd (signatureEvent part).toList :=
  noEnd_toList_ite (noEnd_toList_map fun _ => rfl)

theorem noEnd_plainPart (part : Value) : NoEnd (plainPartEvent part).toList := by
  unfold plainPartEvent
  split
  · rfl
  · cases hinline : inlineDataEvent part with
    | some e => exact noEnd_singleton.mpr (isEnd_inlineData hinline)
    | none =>
      rw [Option.orElse_none]
      split
      · rfl
      · exact noEnd_toList_map fun _ => rfl

theorem noEnd_part (part : Value) (seq : ℕ) : NoEnd (geminiPartEvents sj part seq).1 := by
  have hsaid : NoEnd ((thoughtEvent part).toList ++ (signatureEvent part).toList) :=
    noEnd_append.mpr ⟨noEnd_thought part, noEnd_signature part⟩
  unfold geminiPartEvents
  simp only
  split
  · exact noEnd_append.mpr ⟨hsaid, noEnd_cons.mpr ⟨rfl, noEnd_toList_map fun _ => rfl⟩⟩
  · exact noEnd_append.mpr ⟨hsaid, noEnd_plainPart part⟩

theorem noEnd_parts (parts : List Value) (seq : ℕ) : NoEnd (partsEvents sj parts seq).1 := by
  induction parts generalizing seq with
  | nil => rfl
  | cons part rest ih =>
    rw [partsEvents]
    exact noEnd_append.mpr ⟨noEnd_part part seq, ih _⟩

theorem noEnd_usageFromChunk (value : Value) : NoEnd (usageFromChunk value).toList := by
  unfold usageFromChunk
  split
  · rfl
  · exact noEnd_toList_map fun _ => rfl

theorem isEnd_serviceTier {e : IrStreamEvent} (h : serviceTierFromChunk value = some e) :
    isEnd e = false := by
  obtain ⟨usage, _, hout⟩ := Option.bind_eq_some_iff.mp h
  exact isEnd_of_map (fun _ => rfl) hout

theorem isEnd_countEvent {kind : String} {count : Option ℕ} {e : IrStreamEvent}
    (h : MessagesDecoding.countEvent kind count = some e) : isEnd e = false :=
  isEnd_of_map (fun _ => rfl) h

theorem noEnd_geminiUsage (value : Value) : NoEnd (GeminiDecoding.usageEvents value) := by
  have hprompt : NoEnd (toolUsePromptEvents value) := by
    refine noEnd_toList fun e he => ?_
    obtain ⟨usage, _, hout⟩ := Option.bind_eq_some_iff.mp he
    exact isEnd_countEvent hout
  simp only [GeminiDecoding.usageEvents, noEnd_append]
  exact ⟨⟨⟨⟨⟨noEnd_toList fun _ => isEnd_serviceTier, noEnd_toList_map fun _ => rfl⟩, hprompt⟩,
    noEnd_ite rfl rfl⟩, noEnd_ite rfl rfl⟩, noEnd_usageFromChunk value⟩

theorem noEnd_side (value : Value) : NoEnd (sideEvents value) := by
  simp only [sideEvents, noEnd_append]
  exact ⟨⟨⟨⟨⟨⟨⟨⟨noEnd_toList_map fun _ => rfl, noEnd_toList_map fun _ => rfl⟩,
    noEnd_map fun _ => rfl⟩, noEnd_toList_map fun _ => rfl⟩, noEnd_toList_map fun _ => rfl⟩,
    noEnd_toList_map fun _ => rfl⟩, noEnd_toList_map fun _ => rfl⟩, noEnd_toList_map fun _ => rfl⟩,
    noEnd_toList_map fun _ => rfl⟩

theorem noEnd_candidateTokens (value : Value) : NoEnd (candidateTokensEvent value).toList := by
  refine noEnd_toList fun e he => ?_
  obtain ⟨candidate, _, hout⟩ := Option.bind_eq_some_iff.mp he
  exact isEnd_countEvent hout

/-- A finish reason of the candidate, or a block reason of the prompt. -/
def geminiFinishes (value : Value) : Bool :=
  (finishReasonText value).isSome || (blockReason value).isSome

theorem finish_or_block (value : Value) :
    ((blockEvents value).any isEnd || (finishEvents value).any isEnd) = geminiFinishes value := by
  unfold blockEvents finishEvents geminiFinishes
  cases finishReasonText value with
  | some reason => rfl
  | none => cases blockReason value <;> rfl

/-- The events of a chunk end the stream where its candidate finishes or its prompt is blocked. -/
theorem fanOut_ends {seq next : ℕ} {xs : List IrStreamEvent}
    (h : fanOut sj value seq = some (xs, next)) : xs.any isEnd = geminiFinishes value := by
  have hid : (responseIdEvent value).toList.any isEnd = false := noEnd_toList_map fun _ => rfl
  have hparts : (partsEvents sj (items (candidateAt value ["content", "parts"])) seq).1.any isEnd
      = false := noEnd_parts _ _
  have hnotes (notes : List Value) : (notes.map IrStreamEvent.annotationAdded).any isEnd = false :=
    noEnd_map fun _ => rfl
  have hside : (sideEvents value).any isEnd = false := noEnd_side value
  have havg : (avgLogprobsEvent value).toList.any isEnd = false := noEnd_toList_map fun _ => rfl
  have htokens : (candidateTokensEvent value).toList.any isEnd = false := noEnd_candidateTokens value
  have husage : (GeminiDecoding.usageEvents value).any isEnd = false := noEnd_geminiUsage value
  unfold fanOut at h
  simp only at h
  split at h
  · cases h
  · cases h
    rw [← finish_or_block]
    simp only [List.any_append, hid, hparts, hnotes, hside, havg, htokens, husage, Bool.false_or,
      Bool.or_false]

theorem geminiFinishes_of_fanOut_none {seq : ℕ} (h : fanOut sj value seq = none) :
    geminiFinishes value = false := by
  unfold fanOut at h
  simp only at h
  split at h
  · rename_i hempty
    rw [List.isEmpty_iff] at hempty
    simp only [List.append_eq_nil_iff] at hempty
    rw [← finish_or_block, hempty.1.1.1.1.2, hempty.1.2]
    rfl
  · cases h

theorem endsOnlyIf_partEvent {p : Prop} (part : Value) : EndsOnlyIf p (partEvent part) := by
  have hthought : EndsOnlyIf p (thoughtEvent part) :=
    .of_quiet fun e he => noEnd_iff.mp (noEnd_thought part) e (by simp [he])
  have hsignature : EndsOnlyIf p (signatureEvent part) :=
    .of_quiet fun e he => noEnd_iff.mp (noEnd_signature part) e (by simp [he])
  refine .orElse hthought (.orElse hsignature (.orElse (.map fun _ => rfl) (.orElse ?_ ?_)))
  · exact .of_quiet fun _ => isEnd_inlineData
  · exact .map fun _ => rfl

theorem endsOnlyIf_parts {p : Prop} (parts : List Value) :
    EndsOnlyIf p (parts.findSome? partEvent) := by
  intro e he
  obtain ⟨part, _, hpart⟩ := List.exists_of_findSome?_eq_some he
  exact endsOnlyIf_partEvent part e hpart

theorem endsOnlyIf_usage {p : Prop} (value : Value) : EndsOnlyIf p (usageFromChunk value) :=
  .of_quiet fun e he => noEnd_iff.mp (noEnd_usageFromChunk value) e (by simp [he])

theorem firstCandidate_of_candidate? {candidate : Value} (h : candidate? value = some candidate) :
    firstCandidate value = some candidate := by
  obtain ⟨list, hlist, hhead⟩ := Option.bind_eq_some_iff.mp h
  obtain ⟨v, hv, hitems⟩ := Option.bind_eq_some_iff.mp hlist
  have hnth : v.nth? 0 = some candidate := by
    cases v with
    | array parts =>
      cases hitems
      rw [← hhead]
      exact List.head?_eq_getElem?.symm
    | _ => cases hitems
  rw [firstCandidate, hv, Option.bind_some, hnth]
  rfl

theorem pointer?_singleton (value : Value) (key : String) : pointer? value [key] = value.get? key := by
  simp [pointer?]

theorem endsOnlyIf_candidateFinish {candidate : Value} (h : candidate? value = some candidate) :
    EndsOnlyIf (geminiFinishes value = true) (GeminiDecoding.finishEvent candidate) := by
  intro e he _
  obtain ⟨reason, hreason, _⟩ := Option.map_eq_some_iff.mp he
  have htext : finishReasonText value = some reason := by
    rw [finishReasonText, candidateTextAt, candidateAt, firstCandidate_of_candidate? h,
      Option.bind_some, pointer?_singleton]
    exact hreason
  rw [geminiFinishes, htext]
  rfl

theorem endsOnlyIf_decodeCandidate {candidate : Value} (h : candidate? value = some candidate) :
    EndsOnlyIf (geminiFinishes value = true) (decodeCandidate value candidate) := by
  refine .orElse (endsOnlyIf_parts _) (.orElse (.map fun _ => rfl) (.orElse (.map fun _ => rfl)
    (.orElse (.map fun _ => rfl) (.orElse (.map fun _ => rfl) (.orElse
      (endsOnlyIf_candidateFinish h) (.orElse (.map fun _ => rfl) (.orElse ?_ ?_)))))))
  · exact endsOnlyIf_usage value
  · exact .map fun _ => rfl

theorem endsOnlyIf_onlyUsage {p : Prop} (value : Value) : EndsOnlyIf p (onlyUsage value) := by
  unfold onlyUsage
  split
  · exact endsOnlyIf_usage value
  · intro e he
    cases he

theorem endsOnlyIf_gemini {out : Option IrStreamEvent} (h : GeminiDecoding.decode value = .ok out) :
    EndsOnlyIf (geminiFinishes value = true) out := by
  unfold GeminiDecoding.decode at h
  split at h
  · rename_i reason hreason
    cases h
    intro _ _ _
    have hblock : blockReason value = some reason := by
      split at hreason
      · exact hreason
      · cases hreason
    rw [geminiFinishes, hblock, Option.isSome_some, Bool.or_true]
  · split at h
    · cases h
    · cases h
      refine .orElse (endsOnlyIf_onlyUsage value) ?_
      cases hcandidate : candidate? value with
      | none => exact endsOnlyIf_usage value
      | some candidate => exact endsOnlyIf_decodeCandidate hcandidate

end

end Wiremux.WireEnds
