import Wiremux.EmittingRuns
import Wiremux.EncoderState

set_option autoImplicit false

/-!
# The Responses stream encoder

Output items are opened and closed lazily by each other's events. A function
call announced while a call is open is held to the end of the stream; a custom
call closes the open item instead.
-/
namespace Wiremux.ResponsesEncoder
open JsonValue StreamEvents UsageFields StreamEventEncoding StreamEventFrames
open EmittingRuns EncoderState

def merge (self other : ResponsesToolExtra) : ResponsesToolExtra :=
  { status := other.status.or self.status
    ns := other.ns.or self.ns
    createdBy := other.createdBy.or self.createdBy
    caller := other.caller.or self.caller
    itemId := other.itemId.or self.itemId }

def isEmpty (e : ResponsesToolExtra) : Bool :=
  e.status.isNone && e.ns.isNone && e.createdBy.isNone && e.caller.isNone && e.itemId.isNone

def nonEmptyText (text : Option String) : Option Value :=
  (text.filter (fun t => !t.isEmpty)).map .string

def writeItem (e : ResponsesToolExtra) (item : Value) : Value :=
  let item := item.insertSome "id" (nonEmptyText e.itemId)
  let item := item.insertSome "status" (nonEmptyText e.status)
  let item := item.insertSome "namespace" (nonEmptyText e.ns)
  let item := item.insertSome "created_by" (nonEmptyText e.createdBy)
  item.insertSome "caller" e.caller

def nonEmptyPayloadStr (payload : Value) (key : String) : Option String :=
  (payload.strAt? key).filter (fun t => !t.isEmpty)

def toolExtraFromProtocol (itemType : String) (payload : Value) :
    Option (ℕ × ResponsesToolExtra) :=
  match (payload.get? "index").bind countU32? with
  | none => none
  | some index =>
    let extra : ResponsesToolExtra :=
      if itemType = "responses_tool_status" then
        { status := nonEmptyPayloadStr payload "status" }
      else if itemType = "responses_tool_namespace" then
        { ns := nonEmptyPayloadStr payload "namespace" }
      else if itemType = "responses_tool_created_by" then
        { createdBy := nonEmptyPayloadStr payload "created_by" }
      else if itemType = "responses_tool_item_id" then
        { itemId := nonEmptyPayloadStr payload "id" }
      else if itemType = "responses_tool_caller" then
        { caller := (payload.get? "caller").filter
            (fun c => (nonEmptyPayloadStr c "type").isSome) }
      else {}
    -- an item type of another kind leaves the extra empty
    if isEmpty extra then none else some (index, extra)

def mergeExtra (extras : ℕ → Option ResponsesToolExtra) (key : ℕ) (extra : ResponsesToolExtra) :
    ℕ → Option ResponsesToolExtra :=
  Function.update extras key (some (merge ((extras key).getD {}) extra))

def noteToolExtra (index : ℕ) (extra : ResponsesToolExtra) (s : StreamEncoder) : StreamEncoder :=
  match s.tools.last index with
  | some enc => { s with responses := { s.responses with
      toolExtra := mergeExtra s.responses.toolExtra enc extra } }
  | none => { s with responses := { s.responses with
      toolPending := mergeExtra s.responses.toolPending index extra } }

def takePendingToolExtra (index enc : ℕ) (s : StreamEncoder) : StreamEncoder :=
  match s.responses.toolPending index with
  | some extra => { s with responses := { s.responses with
      toolPending := Function.update s.responses.toolPending index none
      toolExtra := mergeExtra s.responses.toolExtra enc extra } }
  | none => s

def responsesCreatedFrame (s : StreamEncoder) : RawSse :=
  let created := Value.object [("id", s.responses.id.getD "resp_wiremux"),
    ("status", "in_progress")]
  let created := created.insertSome "previous_response_id" (s.responses.previousId.map .string)
  let created := if s.model.isEmpty then created else created.insert "model" s.model
  let created := created.insertSome "created_at" (s.createdAt.map .ofInt)
  let created := created.insertSome "service_tier" (s.serviceTier.map .string)
  responseFrame "response.created"
    (created.insertSome "metadata" (s.responses.metadata.map stringMap))

def startResponses (s : StreamEncoder) : List RawSse × StreamEncoder :=
  if s.started then ([], s) else ([responsesCreatedFrame s], { s with started := true })

def outputText (text : String) : Value := .object [("type", "output_text"), ("text", text)]

def isOutputText (part : Value) : Bool := part.strAt? "type" = some "output_text"

def decorate (annotations logprobs : List Value) (part : Value) : Value :=
  let part := if annotations.isEmpty then part else part.insert "annotations" (.array annotations)
  if logprobs.isEmpty then part else part.insert "logprobs" (.array logprobs)

/-- The first text part takes them; without one an empty part is added. -/
def decorateFirstText (annotations logprobs : List Value) (content : List Value) : List Value :=
  if annotations.isEmpty && logprobs.isEmpty then content
  else
    match content.findIdx? isOutputText with
    | some i => content.modify i (decorate annotations logprobs)
    | none => content ++ [decorate annotations logprobs (outputText "")]

def messageContent (r : ResponsesSide) (index : ℕ) : List Value :=
  let text := (r.textItems index).getD ""
  let refusal := (r.refusalItems index).getD ""
  let content := (r.messageParts index).getD []
  let content := if text.isEmpty then content else content ++ [outputText text]
  let content := decorateFirstText ((r.textAnnotations index).getD [])
    ((r.textLogprobs index).getD []) content
  let content := if refusal.isEmpty then content
    else content ++ [.object [("type", "refusal"), ("refusal", refusal)]]
  if content.isEmpty then [outputText ""] else content

/-- `response.output_text.done` of one part, when it is text with something in it. -/
def textDone (index partIndex : ℕ) (part : Value) : Option RawSse :=
  let text := (part.strAt? "text").getD ""
  if !isOutputText part || u32Max < partIndex then none
  else if text.isEmpty && (part.get? "logprobs").isNone then none
  else
    let done := Value.object [("type", "response.output_text.done"), ("output_index", index),
      ("content_index", partIndex), ("text", text)]
    some (named "response.output_text.done" (done.insertSome "logprobs" (part.get? "logprobs")))

def messageItem (r : ResponsesSide) (content : List Value) : Value :=
  let message := Value.object [("type", "message"), ("role", "assistant"),
    ("content", .array content)]
  let message := message.insertSome "id" (r.messageId.map .string)
  let message := message.insertSome "status" (r.messageStatus.map .string)
  let message := message.insertSome "phase" (r.messagePhase.map .string)
  message.insertSome "agent" r.messageAgent

def reasoningItem (r : ResponsesSide) (index : ℕ) : Value :=
  let text := (r.reasoningItems index).getD ""
  let item := Value.object [("type", "reasoning")]
  let item := item.insertSome "id" (r.reasoningId.map .string)
  let item := item.insertSome "status" (r.reasoningStatus.map .string)
  let hasIdentity := r.reasoningId.isSome || r.reasoningStatus.isSome || r.reasoningContent.isSome
  let item := if !text.isEmpty || !hasIdentity then
      item.insert "summary" (.array [.object [("type", "summary_text"), ("text", .string text)]])
    else item
  item.insertSome "content" r.reasoningContent

def toolExtraWrite (r : ResponsesSide) (enc : ℕ) (item : Value) : Value :=
  match r.toolExtra enc with
  | some extra => writeItem extra item
  | none => item

def doneItem (s : StreamEncoder) (index : ℕ) : BlockKind → Value
  | .text => messageItem s.responses (messageContent s.responses index)
  | .thinking => reasoningItem s.responses index
  | .tool =>
    match s.toolItems index with
    | some t => toolExtraWrite s.responses index (functionCallItem t.id t.name t.args)
    | none => .object [("type", "function_call")]
  | .customTool =>
    match s.toolItems index with
    | some t => toolExtraWrite s.responses index (customToolCallItem t.id t.name t.args)
    | none => .object [("type", "custom_tool_call")]

def takeItem (s : StreamEncoder) (index : ℕ) : BlockKind → StreamEncoder
  | .text => { s with responses := { s.responses with
      textItems := Function.update s.responses.textItems index none
      refusalItems := Function.update s.responses.refusalItems index none
      textAnnotations := Function.update s.responses.textAnnotations index none
      textLogprobs := Function.update s.responses.textLogprobs index none
      messageParts := Function.update s.responses.messageParts index none
      messageAgent := none } }
  | .thinking => { s with responses := { s.responses with
      reasoningItems := Function.update s.responses.reasoningItems index none
      reasoningId := none
      reasoningStatus := none
      reasoningContent := none } }
  | _ => { s with
      toolItems := Function.update s.toolItems index none
      responses := if (s.toolItems index).isSome then { s.responses with
          toolExtra := Function.update s.responses.toolExtra index none }
        else s.responses }

def textDones (s : StreamEncoder) (index : ℕ) : BlockKind → List RawSse
  | .text => ((messageContent s.responses index).zipIdx.filterMap
      (fun p => textDone index p.2 p.1))
  | _ => []

def closeItem (s : StreamEncoder) : List RawSse × StreamEncoder :=
  match s.openBlock with
  | none => ([], s)
  | some (index, kind) =>
    (textDones s index kind ++ [outputItemDone index (doneItem s index kind)],
      takeItem { s with openBlock := none } index kind)

def itemBody : BlockKind → Value
  | .text => .object [("type", "message"), ("role", "assistant"), ("content", .array [])]
  | .thinking => .object [("type", "reasoning")]
  | .tool => .object [("type", "function_call")]
  | .customTool => .object [("type", "custom_tool_call")]

def ensureItem (kind : BlockKind) (s : StreamEncoder) : List RawSse × StreamEncoder :=
  if s.opensKind kind then ([], s)
  else
    let closed := closeItem s
    let index := closed.2.nextBlock
    (closed.1 ++ [outputItemAdded index (itemBody kind)],
      { closed.2 with nextBlock := satAdd index 1, openBlock := some (index, kind) })

/-- Ensure an item of this kind, then record and send in it. -/
def inItem (kind : BlockKind) (send : ℕ → StreamEncoder → List RawSse × StreamEncoder)
    (s : StreamEncoder) : List RawSse × StreamEncoder :=
  let ensured := ensureItem kind s
  let sent := send ensured.2.openIndex ensured.2
  (ensured.1 ++ sent.1, sent.2)

def sendText (text : String) (index : ℕ) (s : StreamEncoder) : List RawSse × StreamEncoder :=
  ([responsesDelta "response.output_text.delta" index text], { s with responses := { s.responses with
    textItems := pushStr s.responses.textItems index text } })

def sendRefusal (text : String) (index : ℕ) (s : StreamEncoder) : List RawSse × StreamEncoder :=
  ([responsesDelta "response.refusal.delta" index text], { s with responses := { s.responses with
    refusalItems := pushStr s.responses.refusalItems index text } })

def sendReasoning (text : String) (index : ℕ) (s : StreamEncoder) :
    List RawSse × StreamEncoder :=
  ([responsesDelta "response.reasoning_summary_text.delta" index text],
    { s with responses := { s.responses with
      reasoningItems := pushStr s.responses.reasoningItems index text } })

def outputTextIndex (r : ResponsesSide) (index : ℕ) : ℕ :=
  match r.messageParts index with
  | none => 0
  | some parts =>
    match parts.findIdx? isOutputText with
    | some found => (toU32? found).getD 0
    | none =>
      if (r.textItems index).any (fun t => !t.isEmpty) then (toU32? parts.length).getD 0 else 0

def sendAnnotation (ann : Value) (index : ℕ) (s : StreamEncoder) :
    List RawSse × StreamEncoder :=
  let ann := annotationWithoutSegmentText ann
  let annotations := (s.responses.textAnnotations index).getD [] ++ [ann]
  let annotationIndex := (toU32? (annotations.length - 1)).getD 0
  ([annotationAddedFrame index (outputTextIndex s.responses index) annotationIndex ann],
    { s with responses := { s.responses with
      textAnnotations := Function.update s.responses.textAnnotations index (some annotations) } })

/-- The text so far becomes a part of its own before the image. -/
def sendImage (mediaType data : String) (index : ℕ) (s : StreamEncoder) :
    List RawSse × StreamEncoder :=
  let prior := (s.responses.textItems index).getD ""
  let parts := (s.responses.messageParts index).getD []
  let parts := if prior.isEmpty then parts else parts ++ [outputText prior]
  let part := outputImagePart mediaType data
  ([named "response.content_part.added" (.object [("type", "response.content_part.added"),
      ("output_index", index), ("content_index", parts.length), ("part", part)])],
    { s with responses := { s.responses with
      textItems := Function.update s.responses.textItems index none
      messageParts := Function.update s.responses.messageParts index (some (parts ++ [part])) } })

def sendLogprobs (content : Value) (refusal : Option Value) (index : ℕ) (s : StreamEncoder) :
    List RawSse × StreamEncoder :=
  let merged := mergedLogprobItems content refusal
  ([logprobsDelta index merged],
    if merged.isEmpty then s else { s with responses := { s.responses with
      textLogprobs := Function.update s.responses.textLogprobs index
        (some ((s.responses.textLogprobs index).getD [] ++ merged)) } })

def isCallKind : BlockKind → Bool
  | .tool => true
  | .customTool => true
  | _ => false

def responsesToolStart (id name : String) (index : ℕ) (s : StreamEncoder) :
    List RawSse × StreamEncoder :=
  let alloc := allocTool index s
  let enc := alloc.1
  let otherOpen := alloc.2.openBlock.any (fun b => isCallKind b.2 && b.1 ≠ enc)
  let s := takePendingToolExtra index enc
    { alloc.2 with
      toolIds := Function.update alloc.2.toolIds enc (some id)
      toolItems := Function.update alloc.2.toolItems enc (some ⟨id, name, ""⟩) }
  if otherOpen then ([], { s with responsesHeld := s.responsesHeld.insert enc () })
  else
    let closed := closeItem s
    (closed.1 ++ [outputItemAdded enc (functionCallItem id name "")],
      { closed.2 with openBlock := some (enc, .tool) })

def responsesCustomStart (id name : String) (index : ℕ) (s : StreamEncoder) :
    List RawSse × StreamEncoder :=
  let alloc := allocTool index s
  let enc := alloc.1
  let closed := closeItem alloc.2
  let s := takePendingToolExtra index enc { closed.2 with
    toolItems := Function.update closed.2.toolItems enc (some ⟨id, name, ""⟩) }
  (closed.1 ++ [outputItemAdded enc (customToolCallItem id name "")],
    { s with openBlock := some (enc, .customTool) })

/-- Append a fragment to the item's buffer, while the item still has one. -/
def appendToolItem (enc : ℕ) (delta : String) (s : StreamEncoder) : StreamEncoder :=
  match s.toolItems enc with
  | some t =>
    let item := { t with args := t.args ++ delta }
    { s with toolItems := Function.update s.toolItems enc (some item) }
  | none => s

def responsesCustomInput (delta : String) (index : ℕ) (s : StreamEncoder) :
    List RawSse × StreamEncoder :=
  let routed := toolEnc index s
  let s := appendToolItem routed.1 delta routed.2
  let itemId := ((s.toolItems routed.1).map ToolItem.id).getD ""
  ([callDelta "response.custom_tool_call_input.delta" routed.1 itemId delta], s)

def responsesToolArg (delta : String) (index : ℕ) (s : StreamEncoder) :
    List RawSse × StreamEncoder :=
  let routed := toolEnc index s
  let s := appendToolItem routed.1 delta routed.2
  if s.responsesHeld.contains routed.1 then ([], s)
  else
    ([callDelta "response.function_call_arguments.delta" routed.1
      ((s.toolIds routed.1).getD "") delta], s)

def noteResponsesEvent (ev : IrStreamEvent) (s : StreamEncoder) : StreamEncoder :=
  match ev with
  | .created unix => { s with createdAt := some unix }
  | .serviceTier tier => { s with serviceTier := some tier }
  | .metadata entries => { s with responses := { s.responses with metadata := some entries } }
  | .moderation input output =>
    { s with responses := { s.responses with moderation := some (input, output) } }
  | _ => s

def isResponsesSidecar : IrStreamEvent → Bool
  | .created _ => true
  | .serviceTier _ => true
  | .metadata _ => true
  | .moderation _ _ => true
  | _ => false

section
variable (sj : SerdeJson)

def responsesEvent (ev : IrStreamEvent) (s : StreamEncoder) :
    Except MapError (List RawSse × StreamEncoder) :=
  match ev with
  | .textDelta text => .ok (inItem .text (sendText text) s)
  | .refusalDelta text => .ok (inItem .text (sendRefusal text) s)
  | .reasoningDelta text => .ok (inItem .thinking (sendReasoning text) s)
  | .reasoningSignature signature => .ok (inItem .thinking
      (fun index s => ([outputItemAdded index (signatureItem signature)], s)) s)
  | .toolCallStart id name _ index => .ok (responsesToolStart id name index s)
  | .annotationAdded ann => .ok (inItem .text ( sendAnnotation ann) s)
  | .audioDelta data => .ok ([audioDeltaFrame "response.audio.delta" data], s)
  | .imageDelta mediaType data => .ok (inItem .text (sendImage mediaType data) s)
  | .logprobs content refusal => .ok (inItem .text (sendLogprobs content refusal) s)
  | .audioTranscriptDelta text =>
    .ok ([audioDeltaFrame "response.audio.transcript.delta" text], s)
  | .customToolCallStart id name index => .ok (responsesCustomStart id name index s)
  | .customToolCallInputDelta delta index => .ok (responsesCustomInput delta index s)
  | .toolCallArgDelta delta index => .ok (responsesToolArg delta index s)
  | .toolCallEnd => .ok (closeItem s)
  | .finishReason reason _ => .ok ([], { s with finish := some reason })
  | .usage u _ => .ok ([], { s with usage := some u })
  | .created _ => .ok ([], s)
  | .serviceTier _ => .ok ([], s)
  | .metadata _ => .ok ([], s)
  | .moderation _ _ => .ok ([], s)
  | .diagnostics _ => .ok ([], s)
  | .container _ => .ok ([], s)
  | .contextManagement _ => .ok ([], s)
  | .stopSequence _ => .ok ([], s)
  | other => (encodeStreamEvent sj .responses other).map (fun f => ([f], s))

def pushResponses (s : StreamEncoder) (ev : IrStreamEvent) :
    Except MapError (List RawSse × StreamEncoder) :=
  let s := noteResponsesEvent ev s
  let opening := if isResponsesSidecar ev then ([], s) else startResponses s
  (responsesEvent sj ev opening.2).map (fun r => (opening.1 ++ r.1, r.2))

end

def heldCallFrames (enc : ℕ) (s : StreamEncoder) : List RawSse × StreamEncoder :=
  match s.toolItems enc with
  | none => ([], s)
  | some t =>
    let args := if t.args.isEmpty then []
      else [callDelta "response.function_call_arguments.delta" enc t.id t.args]
    (outputItemAdded enc (functionCallItem t.id t.name "") :: (args ++
        [outputItemDone enc (toolExtraWrite s.responses enc (functionCallItem t.id t.name t.args))]),
      { s with
        toolItems := Function.update s.toolItems enc none
        responses := { s.responses with
          toolExtra := Function.update s.responses.toolExtra enc none } })

def flushResponsesHeld (s : StreamEncoder) : List RawSse × StreamEncoder :=
  emitEach heldCallFrames (s.responsesHeld.toList.map Prod.fst) { s with responsesHeld := ∅ }

def responsesTerminalFrame (s : StreamEncoder) : RawSse :=
  let reason := s.finish.getD "stop"
  let response := Value.object [("id", s.responses.id.getD "resp_wiremux"),
    ("object", "response"), ("status", (responsesTerminal reason).2)]
  let response := response.insertSome "previous_response_id" (s.responses.previousId.map .string)
  let response := response.insertSome "incomplete_details"
    ((incompleteDetailsReason reason).map (fun d => .object [("reason", .string d)]))
  let response := if s.model.isEmpty then response else response.insert "model" s.model
  let response := response.insertSome "usage" (s.usage.map responsesUsage)
  let response := response.insertSome "moderation"
    (s.responses.moderation.bind (fun m => responsesModerationValue m.1 m.2))
  responseFrame (responsesTerminal reason).1
    (response.insertSome "metadata" (s.responses.metadata.map stringMap))

def finishResponses (s : StreamEncoder) : List RawSse × StreamEncoder :=
  let closed := closeItem s
  let flushed := flushResponsesHeld closed.2
  (closed.1 ++ flushed.1 ++ [responsesTerminalFrame flushed.2], flushed.2)

end Wiremux.ResponsesEncoder
