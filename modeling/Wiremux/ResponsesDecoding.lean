import Wiremux.ChatDecoding

set_option autoImplicit false

/-!
# Decoding Responses frames

`decode` gives one event, `decodeAll` the events of frames that carry several,
`decodeTerminalEvents` those of the three frames that end a stream.
-/
namespace Wiremux.ResponsesDecoding
open JsonValue StreamEvents Completion UsageDecoding FrameDecoding ChatDecoding

def rejectBareResponsesError (value : Value) : Except MapError Unit :=
  if responsesHasVisibleOutput value then .ok ()
  else
    match (plainErrorDetail value).orElse fun _ => failureDetail value with
    | some detail => .error (.invalid detail)
    | none => .ok ()

def checkResponsesIndexes (value : Value) : Except MapError Unit :=
  match checkIndex value "output_index" maxToolCallIndex "output" with
  | .error e => .error e
  | .ok () => checkIndex value "content_index" maxToolCallIndex "content"

def outputIndex (value : Value) : ℕ := indexField value "output_index"

def itemType (value : Value) : Option String := textAt value ["item", "type"]

def itemOf (value : Value) : Value := (value.get? "item").getD value

def decomposedTypes : List String :=
  ["message", "function_call", "custom_tool_call", "reasoning", "output_audio"]

def replayOutputItem (item : Value) : List IrStreamEvent :=
  let ty := (item.strAt? "type").getD ""
  if nonemptyStr item "encrypted_content" || (!ty.isEmpty && !decomposedTypes.contains ty) then
    [protocol (if ty.isEmpty then "reasoning" else ty) item]
  else []

def fieldEvent (item : Value) (key name : String) : List IrStreamEvent :=
  ((nonempty (item.strAt? key)).map fun text => protocol name text).toList

def reasoningItemIdentityEvents (item : Value) : List IrStreamEvent :=
  if item.strAt? "type" = some "reasoning" then
    let kept := (items (item.get? "content")).filter fun part =>
      decide (part.strAt? "type" = some "reasoning_text") && nonemptyStr part "text"
    fieldEvent item "id" "responses_reasoning_id" ++
      fieldEvent item "status" "responses_reasoning_status" ++
      (if kept.isEmpty then [] else [protocol "responses_reasoning_content" (.array kept)])
  else []

def isReasoningContent : IrStreamEvent → Bool
  | .protocol itemType _ => itemType == "responses_reasoning_content"
  | _ => false

def responsesTerminalKeepsOutput (value : Value) : Bool :=
  (responsesOutput value).any fun item =>
    !(replayOutputItem item).isEmpty || (reasoningItemIdentityEvents item).any isReasoningContent

def imageDeltaFromOutputImage (part : Value) : Option IrStreamEvent :=
  if part.strAt? "type" = some "output_image" then
    (part.strAt? "image_url").bind imageOfDataUrl
  else none

def audioEventsFromOutputPart (part : Value) : List IrStreamEvent :=
  if part.strAt? "type" = some "output_audio" ∨ part.strAt? "type" = some "audio" then
    ((nonempty (part.strAt? "data")).map .audioDelta).toList ++
      ((nonempty (part.strAt? "transcript")).map .audioTranscriptDelta).toList
  else []

def responsesPartEvents (part : Value) : List IrStreamEvent :=
  let ty := part.strAt? "type"
  let text := if ty = some "output_text" ∨ ty = some "text" then
      (nonempty (part.strAt? "text")).map .textDelta
    else none
  let refusal := if ty = some "refusal" then
      (nonempty ((part.strAt? "refusal").orElse fun _ => part.strAt? "text")).map .refusalDelta
    else none
  let image := (imageDeltaFromOutputImage part).orElse fun _ =>
    if ty = some "output_image" then some (protocol "output_image" part) else none
  text.toList ++ refusal.toList ++ image.toList ++ audioEventsFromOutputPart part

def contentPartEvents (value : Value) : List IrStreamEvent :=
  responsesPartEvents ((value.get? "part").getD value)

def messageItemIdentityEvents (item : Value) : List IrStreamEvent :=
  fieldEvent item "id" "responses_message_id" ++
    fieldEvent item "status" "responses_message_status" ++
    fieldEvent item "phase" "responses_message_phase" ++
    (((item.get? "agent").filter fun agent => nonemptyStr agent "agent_name").map
      (protocol "responses_message_agent")).toList

def messageContentEvents (item : Value) : List IrStreamEvent :=
  messageItemIdentityEvents item ++ (items (item.get? "content")).flatMap responsesPartEvents

def toolItemIdEvent (item : Value) (index : ℕ) : Option IrStreamEvent :=
  (nonempty (item.strAt? "id")).bind fun itemId =>
    (nonempty (item.strAt? "call_id")).bind fun callId =>
      if itemId = callId then none
      else some (protocol "responses_tool_item_id" (.object [("index", index), ("id", itemId)]))

def toolItemCallerEvent (item : Value) (index : ℕ) : Option IrStreamEvent :=
  ((item.get? "caller").filter fun caller => nonemptyStr caller "type").map fun caller =>
    protocol "responses_tool_caller" (.object [("index", index), ("caller", caller)])

def toolItemFieldEvent (item : Value) (index : ℕ) (key name : String) : Option IrStreamEvent :=
  (nonempty (item.strAt? key)).map fun text =>
    protocol name (.object [("index", index), (key, text)])

def toolItemEvents (item : Value) (index : ℕ) : List IrStreamEvent :=
  (toolItemIdEvent item index).toList ++ (toolItemCallerEvent item index).toList ++
    (toolItemFieldEvent item index "created_by" "responses_tool_created_by").toList ++
    (toolItemFieldEvent item index "namespace" "responses_tool_namespace").toList ++
    (toolItemFieldEvent item index "status" "responses_tool_status").toList

/-- The id of the call, or of the item. -/
def callId (item : Value) : String :=
  ((item.strAt? "call_id").orElse fun _ => item.strAt? "id").getD ""

def callName (item : Value) : String := (item.strAt? "name").getD ""

def decodeReasoningItem (name : String) (value : Value) : IrStreamEvent :=
  match nonempty ((itemOf value).strAt? "signature") with
  | some signature => .reasoningSignature signature
  | none =>
    match nonempty ((itemOf value).strAt? "text") with
    | some text => .reasoningDelta text
    | none => protocol name value

def logprobsArray (value : Value) : Option Value := presentLogprobArray (value.get? "logprobs")

def nonemptyDelta (value : Value) : Option String := nonempty (value.strAt? "delta")

variable (sj : SerdeJson)

def singularPartLimit : MapError :=
  .invalid "decode_stream_event cannot represent a Responses content part with more than one event; use decode_stream_events"

def singularMessageLimit : MapError :=
  .invalid "decode_stream_event cannot represent every event in this Responses message; use decode_stream_events"

def singularItemLimit : MapError :=
  .invalid "decode_stream_event cannot represent every event in this Responses item; use decode_stream_events"

def isStructured (value : Option Value) : Bool :=
  value.any fun v => v.isObject || (v.asArray?).isSome

def decodeReplay (name : String) (value : Value) : Except MapError (Option IrStreamEvent) :=
  let replay := replayOutputItem (itemOf value)
  if 1 < replay.length then .error singularItemLimit
  else .ok (some (replay.head?.getD (protocol name value)))

def decodeCallItem (value : Value) (key : String) (start : String → String → ℕ → IrStreamEvent) :
    Except MapError (Option IrStreamEvent) :=
  let item := itemOf value
  if isStructured (item.get? key) then .error singularToolLimit
  else (jsonTextField sj item key).map fun _ =>
    some (start (callId item) (callName item) (outputIndex value))

def decodeMessageItem (name : String) (value : Value) : Except MapError (Option IrStreamEvent) :=
  let events := messageContentEvents (itemOf value)
  if 1 < (items ((itemOf value).get? "content")).length ∨ 1 < events.length then
    .error singularMessageLimit
  else .ok (some (events.head?.getD (protocol name value)))

def startFunction (id name : String) (index : ℕ) : IrStreamEvent := .toolCallStart id name none index

def decodeItemAdded (name : String) (value : Value) : Except MapError (Option IrStreamEvent) :=
  match itemType value with
  | some "function_call" => decodeCallItem sj value "arguments" startFunction
  | some "custom_tool_call" => decodeCallItem sj value "input" .customToolCallStart
  | some "reasoning" => .ok (some (decodeReasoningItem name value))
  | some "message" => decodeMessageItem name value
  | _ => decodeReplay name value

def decodeItemDone (name : String) (value : Value) : Except MapError (Option IrStreamEvent) :=
  match itemType value with
  | some "function_call" => .ok (some .toolCallEnd)
  | some "custom_tool_call" => .ok (some .toolCallEnd)
  | _ => decodeReplay name value

def decodeIncompleteReason (value : Value) (fallback : String) : String :=
  match textAt value ["response", "incomplete_details", "reason"] with
  | some "content_filter" => "content_filter"
  | some "max_output_tokens" => "length"
  | _ => fallback

def decodeCompleted (value : Value) : IrStreamEvent :=
  if textAt value ["response", "status"] = some "cancelled" ∨
      textAt value ["response", "status"] = some "canceled" then .finishReason "cancelled" none
  else
    match pointer? value ["response", "usage"] with
    | some usage => usageEvent (fromResponses usage)
    | none => .done

/-- A leaf that the terminal walk does not emit is dropped with its error. -/
def decodeFailed (value : Value) : Except MapError (Option IrStreamEvent) :=
  match if responsesHasVisibleOutput value && !responsesTerminalKeepsOutput value then
      failureDetail value else none with
  | some detail => .error (.invalid detail)
  | none => .ok (some (.finishReason "failed" none))

/-- Frames that bracket a part or repeat the text of their deltas. -/
def silentNames : List String :=
  ["response.output_text.done", "response.content_part.done",
    "response.function_call_arguments.done", "response.refusal.done", "response.audio.done",
    "response.audio.transcript.done", "response.reasoning_summary_part.added",
    "response.reasoning_summary_part.done", "response.reasoning_summary_text.done",
    "response.reasoning_text.done", "response.custom_tool_call_input.done"]

def vendorErrorDetail (value : Value) : String :=
  match nonempty (value.strAt? "code"), nonempty (value.strAt? "message") with
  | some code, some message => code ++ ": " ++ message
  | none, some message => message
  | some code, none => code
  | none, none => "vendor error"

def unlessBareError (value : Value) (next : Except MapError (Option IrStreamEvent)) :
    Except MapError (Option IrStreamEvent) :=
  match rejectBareResponsesError value with
  | .error e => .error e
  | .ok () => next

def decodeOther (name : String) (value : Value) : Except MapError (Option IrStreamEvent) :=
  unlessBareError value
    (.ok (if silentNames.contains name then none else some (protocol name value)))

def decodeNamed (name : String) (value : Value) : Except MapError (Option IrStreamEvent) :=
  match name with
  | "response.output_text.delta" =>
    .ok (((nonemptyDelta value).map .textDelta).orElse fun _ =>
      (logprobsArray value).map fun content => .logprobs content none)
  | "response.reasoning_summary_text.delta" => .ok ((nonemptyDelta value).map .reasoningDelta)
  | "response.reasoning.delta" => .ok ((nonemptyDelta value).map .reasoningDelta)
  | "response.reasoning_text.delta" => .ok ((nonemptyDelta value).map .reasoningDelta)
  | "response.refusal.delta" => .ok ((nonemptyDelta value).map .refusalDelta)
  | "response.function_call_arguments.delta" =>
    .ok (some (.toolCallArgDelta ((value.strAt? "delta").getD "") (outputIndex value)))
  | "response.output_text.annotation.added" =>
    .ok (some (match objectAt value ["annotation"] with
      | some annotation => .annotationAdded annotation
      | none => protocol name value))
  | "response.audio.delta" => .ok ((nonemptyDelta value).map .audioDelta)
  | "response.audio.transcript.delta" => .ok ((nonemptyDelta value).map .audioTranscriptDelta)
  | "response.custom_tool_call_input.delta" =>
    .ok (some (.customToolCallInputDelta ((value.strAt? "delta").getD "") (outputIndex value)))
  | "response.content_part.added" =>
    if 1 < (contentPartEvents value).length then .error singularPartLimit
    else .ok (contentPartEvents value).head?
  | "response.output_item.added" => decodeItemAdded sj name value
  | "response.output_item.done" => decodeItemDone name value
  | "response.completed" => unlessBareError value (.ok (some (decodeCompleted value)))
  | "response.failed" => unlessBareError value (decodeFailed value)
  | "response.incomplete" => unlessBareError value
      (.ok (some (.finishReason (decodeIncompleteReason value "incomplete") none)))
  | "error" => .error (.invalid (vendorErrorDetail value))
  | other => decodeOther other value

def decode (name : String) (value : Value) : Except MapError (Option IrStreamEvent) :=
  match checkResponsesIndexes value with
  | .error e => .error e
  | .ok () => decodeNamed sj name value

def eitherAt (value : Value) (key : String) : Option Value :=
  (value.get? key).orElse fun _ => pointer? value ["response", key]

def responseEitherAt (value : Value) (key : String) : Option Value :=
  (pointer? value ["response", key]).orElse fun _ => value.get? key

def createdEvent (value : Value) : Option IrStreamEvent :=
  ((eitherAt value "created_at").bind asI64?).map .created

def serviceTierEvent (value : Value) : Option IrStreamEvent :=
  (nonempty ((eitherAt value "service_tier").bind Value.asStr?)).map .serviceTier

def responseSlotEvents (value : Value) : List IrStreamEvent :=
  ((nonBlank ((responseEitherAt value "id").bind Value.asStr?)).map fun id =>
      protocol "responses_id" id).toList ++
    ((nonBlank ((responseEitherAt value "previous_response_id").bind Value.asStr?)).map fun prev =>
      protocol "responses_previous_id" prev).toList ++
    (createdEvent value).toList ++ (serviceTierEvent value).toList ++
    (metadataEvent (eitherAt value "metadata")).toList ++ (moderationEvent value).toList

def addedCallEvents (value : Value) (key : String) (start : String → String → ℕ → IrStreamEvent)
    (argument : String → ℕ → IrStreamEvent) : Except MapError (List IrStreamEvent) :=
  let item := itemOf value
  let index := outputIndex value
  (jsonTextField sj item key).map fun args =>
    toolItemEvents item index ++ [start (callId item) (callName item) index] ++
      (args.map fun delta => argument delta index).toList

def addedReasoningEvents (item : Value) : List IrStreamEvent :=
  let replay := replayOutputItem item
  let said := match nonempty (item.strAt? "signature") with
    | some signature => [.reasoningSignature signature]
    | none => ((nonempty (item.strAt? "text")).map .reasoningDelta).toList
  said ++ (if replay.isEmpty then reasoningItemIdentityEvents item else []) ++ replay

def addedItemEvents (value : Value) : Except MapError (List IrStreamEvent) :=
  match itemType value with
  | some "function_call" => addedCallEvents sj value "arguments" startFunction .toolCallArgDelta
  | some "custom_tool_call" =>
    addedCallEvents sj value "input" .customToolCallStart .customToolCallInputDelta
  | some "message" => .ok (messageContentEvents (itemOf value))
  | some "reasoning" => .ok (addedReasoningEvents (itemOf value))
  | _ => .ok (replayOutputItem (itemOf value))

def decodeAll (name : String) (value : Value) : Except MapError (List IrStreamEvent) :=
  match checkResponsesIndexes value with
  | .error e => .error e
  | .ok () =>
    match name with
    | "response.created" => .ok (responseSlotEvents value)
    | "response.output_item.added" => addedItemEvents sj value
    | "response.content_part.added" => .ok (contentPartEvents value)
    | "response.output_text.delta" =>
      .ok (((nonemptyDelta value).map .textDelta).toList ++
        ((logprobsArray value).map fun content => .logprobs content none).toList)
    | _ => .ok []

def terminalNames : List String := ["response.completed", "response.incomplete", "response.failed"]

def terminalFinishReason (name : String) (value : Value) : Option String :=
  match textAt value ["response", "status"] with
  | some "completed" => some "stop"
  | some "incomplete" => some (decodeIncompleteReason value "length")
  | some "failed" => some "failed"
  | some other => if other.isEmpty then none else some other
  | none =>
    if name = "response.incomplete" then some (decodeIncompleteReason value "incomplete")
    else if name = "response.completed" ∧ (objectAt value ["response", "usage"]).isSome = true then
      some "stop"
    else none

def terminalItemEvents (item : Value) : List IrStreamEvent :=
  let replay := replayOutputItem item
  (if replay.isEmpty then reasoningItemIdentityEvents item else []) ++ replay

/-- The events of a terminal frame, when there are two or a slot among them. -/
def decodeTerminalEvents (name : String) (value : Value) : Option (List IrStreamEvent) :=
  if terminalNames.contains name then
    let slots := responseSlotEvents value
    let out : List IrStreamEvent :=
      (items (pointer? value ["response", "output"])).flatMap terminalItemEvents ++
      ((terminalFinishReason name value).map fun reason => .finishReason reason none).toList ++
      ((objectAt value ["response", "usage"]).map fun usage =>
        usageEvent (fromResponses usage)).toList ++ slots
    if 2 ≤ out.length ∨ slots.isEmpty = false then some out else none
  else none

end Wiremux.ResponsesDecoding
