import Wiremux.CallSlots
import Wiremux.ChatDecoding

set_option autoImplicit false

/-!
# Decoding a complete Chat body

`decodeChatComplete` reads the first choice. Around the events of its tool calls are
only events that no encoder takes for a call.
-/
namespace Wiremux.ChatCompleteDecoding
open JsonValue StreamEvents FrameDecoding ChatDecoding Completion UsageDecoding CallSlots

variable (sj : SerdeJson)

def completeCustomToolCall (call : Value) : Except MapError (List IrStreamEvent) :=
  let custom := (call.get? "custom").getD call
  let id := (call.strAt? "id").getD ""
  let name := (custom.strAt? "name").getD ""
  let index := toolCallIndex call
  (jsonTextField sj custom "input").map fun input =>
    .customToolCallStart id name index ::
      ((input.map fun delta => .customToolCallInputDelta delta index).toList ++ [.toolCallEnd])

def completeChatToolCall (call : Value) : Except MapError (List IrStreamEvent) :=
  if call.strAt? "type" = some "custom" then completeCustomToolCall sj call
  else if otherType call then .ok [protocol "chunk" call]
  else
    let func := functionBody call
    let id := (call.strAt? "id").getD ""
    let name := (func.strAt? "name").getD ""
    let index := toolCallIndex call
    (jsonTextField sj func "arguments").map fun args =>
      .toolCallStart id name none index ::
        ((args.map fun delta => .toolCallArgDelta delta index).toList ++ [.toolCallEnd])

def completeCalls : List Value → Except MapError (List IrStreamEvent)
  | [] => .ok []
  | call :: rest =>
    match checkIndex call "index" maxToolCallIndex "tool call" with
    | .error e => .error e
    | .ok () =>
      match completeChatToolCall sj call with
      | .error e => .error e
      | .ok events => (completeCalls rest).map fun more => events ++ more

def messageCalls (message : Option Value) : Except MapError (List IrStreamEvent) :=
  match (message.bind fun m => m.get? "tool_calls").bind Value.asArray? with
  | some calls => completeCalls sj calls
  | none =>
    match (message.bind fun m => m.get? "function_call").filter Value.isObject with
    | some fc => completeChatToolCall sj fc
    | none => .ok []

def headEvents (value : Value) : List IrStreamEvent :=
  ((nonempty (value.strAt? "service_tier")).map .serviceTier).toList ++
    (systemFingerprintEvent value).toList ++
    (completionIdEvent value).toList ++
    (((value.get? "created").bind asI64?).map .created).toList ++
    (metadataEvent (value.get? "metadata")).toList ++
    (moderationEvent value).toList

/-- The events of the message before its calls. -/
def messageEvents (message : Option Value) : List IrStreamEvent :=
  ((reasoningText message).map .reasoningDelta).toList ++
    ((deltaText message "reasoning_signature").map .reasoningSignature).toList ++
    ((message.bind fun m => m.get? "content").map contentEvents).getD [] ++
    ((deltaText message "refusal").map .refusalDelta).toList ++
    annotationEvents message ++
    ((deltaAudio message).map audioEvents).getD []

def tailEvents (choice value : Value) : List IrStreamEvent :=
  (chatLogprobsEvent choice).toList ++ (finishEvent choice).toList ++ usageEvents value

def decodeChatComplete (value : Value) : Except MapError (List IrStreamEvent) :=
  match rejectBareChatError value with
  | .error e => .error e
  | .ok () =>
    match firstChoice value with
    | none => .ok (headEvents value ++ usageEvents value)
    | some choice =>
      (messageCalls sj (choice.get? "message")).map fun calls =>
        headEvents value ++ (messageEvents (choice.get? "message") ++
          (calls ++ tailEvents choice value))

/-- `choices[0].message.tool_calls`, when it is an array. -/
def chatCalls (value : Value) : Option (List Value) :=
  (((firstChoice value).bind fun choice => choice.get? "message").bind fun message =>
    message.get? "tool_calls").bind Value.asArray?

/-- An entry of type `function`, or without a type. -/
def isFunctionCall (call : Value) : Bool := !otherType call

def callArguments (call : Value) : Option String :=
  (jsonTextField sj (functionBody call) "arguments").toOption.join

def entryOf (call : Value) : CallEntry where
  index := toolCallIndex call
  id := (call.strAt? "id").getD ""
  name := ((functionBody call).strAt? "name").getD ""
  args := callArguments sj call

def entryEvents (e : CallEntry) : List IrStreamEvent :=
  .toolCallStart e.id e.name none e.index ::
    ((e.args.map fun delta => .toolCallArgDelta delta e.index).toList ++ [.toolCallEnd])

variable {sj}

theorem completeChatToolCall_eq {call : Value} {events : List IrStreamEvent}
    (hfunction : isFunctionCall call = true) (h : completeChatToolCall sj call = .ok events) :
    events = entryEvents (entryOf sj call) := by
  have hother : otherType call = false := by simpa [isFunctionCall] using hfunction
  have hcustom : call.strAt? "type" ≠ some "custom" := by
    intro hty
    rw [otherType, hty] at hother
    cases hother
  rw [completeChatToolCall, if_neg hcustom, hother] at h
  simp only [Bool.false_eq_true, if_false] at h
  unfold entryEvents entryOf callArguments
  cases hargs : jsonTextField sj (functionBody call) "arguments" with
  | error e =>
    rw [hargs] at h
    cases h
  | ok args =>
    rw [hargs] at h
    exact (Except.ok.inj h).symm

theorem completeCalls_eq {calls : List Value} {events : List IrStreamEvent}
    (hfunctions : ∀ call ∈ calls, isFunctionCall call = true)
    (h : completeCalls sj calls = .ok events) :
    events = (calls.map (entryOf sj)).flatMap entryEvents := by
  induction calls generalizing events with
  | nil => exact (Except.ok.inj h).symm
  | cons call rest ih =>
    rw [completeCalls] at h
    split at h
    · cases h
    · split at h
      · cases h
      · rename_i first hfirst
        cases hrest : completeCalls sj rest with
        | error e =>
          rw [hrest] at h
          cases h
        | ok more =>
          rw [hrest] at h
          rw [List.map_cons, List.flatMap_cons,
            ← completeChatToolCall_eq (hfunctions call List.mem_cons_self) hfirst,
            ← ih (fun c hc => hfunctions c (List.mem_cons_of_mem _ hc)) hrest]
          exact (Except.ok.inj h).symm

def chatItemTypes : List String :=
  ["system_fingerprint", "chat_completion_id", "chat_audio_id", "chat_audio_expires",
    "chat_accepted_prediction_tokens", "chat_rejected_prediction_tokens", "image_url"]

def aside : IrStreamEvent → Bool
  | .protocol itemType _ => chatItemTypes.contains itemType
  | .toolCallStart _ _ _ _ => false
  | .toolCallArgDelta _ _ => false
  | .customToolCallStart _ _ _ => false
  | .customToolCallInputDelta _ _ => false
  | _ => true

def Asides (events : List IrStreamEvent) : Prop := ∀ ev ∈ events, aside ev = true

theorem Asides.append {xs ys : List IrStreamEvent} (hx : Asides xs) (hy : Asides ys) :
    Asides (xs ++ ys) := by
  intro ev hev
  rcases List.mem_append.mp hev with hev | hev
  · exact hx ev hev
  · exact hy ev hev

theorem asides_map {α : Type*} {f : α → IrStreamEvent} (hf : ∀ a, aside (f a) = true)
    (value : Option α) : Asides (value.map f).toList := by
  intro ev hev
  cases value with
  | none => cases hev
  | some a =>
    obtain rfl := List.mem_singleton.mp hev
    exact hf a

theorem asides_getD {f : Value → List IrStreamEvent} (hf : ∀ v, Asides (f v)) (value : Option Value) :
    Asides ((value.map f).getD []) := by
  cases value with
  | none => exact fun ev hev => by cases hev
  | some v => exact hf v

theorem asides_moderation (value : Value) : Asides (moderationEvent value).toList := by
  intro ev hev
  rw [Option.mem_toList] at hev
  obtain ⟨moderation, _, hev⟩ := Option.bind_eq_some_iff.mp hev
  simp only at hev
  split at hev
  · cases hev
  · obtain rfl := Option.some.inj hev
    rfl

theorem asides_metadata (value : Option Value) : Asides (metadataEvent value).toList := by
  intro ev hev
  rw [Option.mem_toList] at hev
  obtain ⟨v, _, hev⟩ := Option.bind_eq_some_iff.mp hev
  simp only at hev
  split at hev
  · cases hev
  · obtain rfl := Option.some.inj hev
    rfl

theorem asides_head (value : Value) : Asides (headEvents value) := by
  have htier := @asides_map _ IrStreamEvent.serviceTier (fun _ => rfl) (nonempty (value.strAt? "service_tier"))
  have hcreated := @asides_map _ IrStreamEvent.created (fun _ => rfl)
    ((value.get? "created").bind asI64?)
  have hprint : Asides (systemFingerprintEvent value).toList := asides_map (fun _ => rfl) _
  have hid : Asides (completionIdEvent value).toList := asides_map (fun _ => rfl) _
  exact ((((htier.append hprint).append hid).append hcreated).append
    (asides_metadata _)).append (asides_moderation value)

theorem asides_text (text : String) : Asides (textEvent text) := by
  unfold textEvent
  split
  · exact fun ev hev => by cases hev
  · intro ev hev
    obtain rfl := List.mem_singleton.mp hev
    rfl

theorem aside_image {part : Value} {ev : IrStreamEvent} (h : imageEventFromPart part = some ev) :
    aside ev = true := by
  unfold imageEventFromPart at h
  split at h
  · obtain ⟨url, _, himage⟩ := Option.bind_eq_some_iff.mp h
    unfold imageOfDataUrl at himage
    split at himage
    · obtain ⟨halves, _, hev⟩ := Option.bind_eq_some_iff.mp himage
      simp only at hev
      split at hev
      · cases hev
      · obtain rfl := Option.some.inj hev
        rfl
    · cases himage
  · cases h

theorem asides_parts (parts : List Value) (text : String) : Asides (partEvents text parts) := by
  induction parts generalizing text with
  | nil => exact asides_text text
  | cons part rest ih =>
    unfold partEvents
    split
    · exact ih _
    · split
      · refine (asides_text text).append fun ev hev => ?_
        rcases List.mem_cons.mp hev with rfl | hev
        · cases himage : imageEventFromPart part with
          | none => rfl
          | some ev => exact aside_image himage
        · exact ih "" ev hev
      · exact ih _

theorem asides_content (content : Value) : Asides (contentEvents content) := by
  cases content with
  | string text => exact asides_text text
  | array parts => exact asides_parts parts ""
  | _ => exact fun ev hev => by cases hev

theorem asides_annotations (message : Option Value) : Asides (annotationEvents message) := by
  intro ev hev
  obtain ⟨ann, _, rfl⟩ := List.mem_map.mp hev
  rfl

theorem asides_audio (audio : Value) : Asides (audioEvents audio) := by
  have hdata := @asides_map _ IrStreamEvent.audioDelta (fun _ => rfl) (nonempty (audio.strAt? "data"))
  have htranscript := @asides_map _ IrStreamEvent.audioTranscriptDelta (fun _ => rfl)
    (nonempty (audio.strAt? "transcript"))
  refine (hdata.append htranscript).append (Asides.append ?_ ?_)
  · exact asides_map (fun _ => rfl) _
  · exact asides_map (fun _ => rfl) _

theorem asides_message (message : Option Value) : Asides (messageEvents message) := by
  have hreasoning := @asides_map _ IrStreamEvent.reasoningDelta (fun _ => rfl) (reasoningText message)
  have hsignature := @asides_map _ IrStreamEvent.reasoningSignature (fun _ => rfl)
    (deltaText message "reasoning_signature")
  have hrefusal := @asides_map _ IrStreamEvent.refusalDelta (fun _ => rfl) (deltaText message "refusal")
  exact ((((hreasoning.append hsignature).append (asides_getD asides_content _)).append
    hrefusal).append (asides_annotations message)).append (asides_getD asides_audio _)

theorem asides_usage (value : Value) : Asides (usageEvents value) := by
  unfold usageEvents
  split
  · exact fun ev hev => by cases hev
  · intro ev hev
    rcases List.mem_cons.mp hev with rfl | hev
    · rfl
    · obtain ⟨⟨key, itemType⟩, hpair, hev⟩ := List.mem_filterMap.mp hev
      obtain ⟨n, _, rfl⟩ := Option.map_eq_some_iff.mp hev
      rcases List.mem_pair.mp hpair with heq | heq
      · obtain ⟨_, rfl⟩ := Prod.mk.inj heq
        rfl
      · obtain ⟨_, rfl⟩ := Prod.mk.inj heq
        rfl

theorem asides_tail (choice value : Value) : Asides (tailEvents choice value) := by
  have hfinish : Asides (finishEvent choice).toList := asides_map (fun _ => rfl) _
  have hlogprobs : Asides (chatLogprobsEvent choice).toList := by
    intro ev hev
    rw [Option.mem_toList] at hev
    obtain ⟨logprobs, _, hev⟩ := Option.bind_eq_some_iff.mp hev
    simp only at hev
    split at hev
    · cases hev
    · obtain rfl := Option.some.inj hev
      rfl
  exact (hlogprobs.append hfinish).append (asides_usage value)

theorem decodeChatComplete_calls {value : Value} {calls : List Value} {events : List IrStreamEvent}
    (hcalls : chatCalls value = some calls)
    (hfunctions : ∀ call ∈ calls, isFunctionCall call = true)
    (h : decodeChatComplete sj value = .ok events) :
    ∃ front back, Asides front ∧ Asides back ∧
      events = front ++ ((calls.map (entryOf sj)).flatMap entryEvents ++ back) := by
  obtain ⟨message, hmessage, harray⟩ := Option.bind_eq_some_iff.mp hcalls
  obtain ⟨m, hm, htool⟩ := Option.bind_eq_some_iff.mp hmessage
  obtain ⟨choice, hchoice, hget⟩ := Option.bind_eq_some_iff.mp hm
  rw [decodeChatComplete] at h
  split at h
  · cases h
  · rw [hchoice] at h
    have hlist : messageCalls sj (choice.get? "message") = completeCalls sj calls := by
      rw [messageCalls, hget, Option.bind_some, htool, Option.bind_some, harray]
    simp only [hlist] at h
    cases hdone : completeCalls sj calls with
    | error e =>
      rw [hdone] at h
      cases h
    | ok events' =>
      rw [hdone] at h
      obtain rfl := Except.ok.inj h
      refine ⟨headEvents value ++ messageEvents (choice.get? "message"), tailEvents choice value,
        (asides_head value).append (asides_message _), asides_tail choice value, ?_⟩
      rw [completeCalls_eq hfunctions hdone, List.append_assoc]

end Wiremux.ChatCompleteDecoding
