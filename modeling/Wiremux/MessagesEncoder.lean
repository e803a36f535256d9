import Mathlib.Data.List.Sort
import Wiremux.EmittingRuns
import Wiremux.EncoderState

set_option autoImplicit false

/-!
# The Messages stream encoder

Content blocks are serial: one block is open at a time. A tool start that
arrives behind an open tool is held, and text, reasoning and annotations that
arrive behind it are deferred to the end of the stream.
-/
namespace Wiremux.MessagesEncoder
open JsonValue StreamEvents UsageFields StreamEventEncoding StreamEventFrames
open EmittingRuns EncoderState

def messagesStartFrame (s : StreamEncoder) : RawSse :=
  let usage := (Value.object [("input_tokens", 0), ("output_tokens", 0)]).insertSome
    "service_tier" ((s.serviceTier.bind usageServiceTierToMessages).map .string)
  let message := Value.object [("id", s.messages.id.getD "msg_wiremux"), ("type", "message"),
    ("role", "assistant"), ("content", .array []), ("stop_reason", .null),
    ("stop_sequence", .null), ("usage", usage)]
  let message := if s.model.isEmpty then message else message.insert "model" s.model
  named "message_start" (.object [("type", "message_start"),
    ("message", message.insertSome "container" s.messages.container)])

def startMessages (s : StreamEncoder) : List RawSse × StreamEncoder :=
  if s.started then ([], s)
  else ([messagesStartFrame s], { s with
    started := true
    messages := { s.messages with containerWritten := s.messages.container.isSome } })

def toolStartFrame (enc : ℕ) (id name : String) : RawSse :=
  contentBlockStart enc (toolUseBlock id name)

def toolArgFrame (enc : ℕ) (delta : String) : RawSse :=
  contentBlockDelta enc (inputJsonDeltaBody delta)

section
variable (sj : SerdeJson)

def heldToolFrames (held : HeldTool) (s : StreamEncoder) : List RawSse × StreamEncoder :=
  let s := { s with closedTools := insert held.enc s.closedTools }
  let taken := takeCustomJson sj held.enc s
  let args := match taken.1 with
    | some text => [toolArgFrame held.enc text]
    | none => if held.args.isEmpty then [] else [toolArgFrame held.enc held.args]
  (toolStartFrame held.enc held.id held.name :: (args ++ [contentBlockStop held.enc]), taken.2)

def sortByEnc (held : List HeldTool) : List HeldTool :=
  held.insertionSort (fun a b => a.enc ≤ b.enc)

def flushHeldTools (s : StreamEncoder) : List RawSse × StreamEncoder :=
  emitEach (heldToolFrames sj) (sortByEnc (s.heldTools.toList.map Prod.snd)) { s with heldTools := ∅ }

def closeOpen (s : StreamEncoder) : List RawSse × StreamEncoder :=
  match s.openBlock with
  | none => flushHeldTools sj s
  | some (index, kind) =>
    let s := { s with openBlock := none, closedTools := insert index s.closedTools }
    let taken := if kind = .tool then takeCustomJson sj index s else (none, s)
    let flushed := flushHeldTools sj taken.2
    ((taken.1.map (toolArgFrame index)).toList ++ contentBlockStop index :: flushed.1, flushed.2)

def blockBody : BlockKind → Value
  | .text => .object [("type", "text"), ("text", "")]
  | .thinking => .object [("type", "thinking"), ("thinking", "")]
  | .tool => toolUseBlock "" ""
  | .customTool => toolUseBlock "" ""

def ensureBlock (kind : BlockKind) (s : StreamEncoder) : List RawSse × StreamEncoder :=
  if s.opensKind kind then ([], s)
  else
    let closed := closeOpen sj s
    let index := closed.2.nextBlock
    (closed.1 ++ [contentBlockStart index (blockBody kind)],
      { closed.2 with nextBlock := satAdd index 1, openBlock := some (index, kind) })

def blockDelta (kind : BlockKind) (body : Value) (s : StreamEncoder) :
    List RawSse × StreamEncoder :=
  let ensured := ensureBlock sj kind s
  (ensured.1 ++ [contentBlockDelta ensured.2.openIndex body], ensured.2)

def emitText (text : String) : StreamEncoder → List RawSse × StreamEncoder :=
  blockDelta sj .text (textDeltaBody text)

def toolBlockOpen (s : StreamEncoder) : Bool := s.opensKind .tool || !s.heldTools.isEmpty

/-- Keep the event for the end of the stream while a tool block is open. -/
def deferOr (ev : IrStreamEvent) (emit : StreamEncoder → List RawSse × StreamEncoder)
    (s : StreamEncoder) : List RawSse × StreamEncoder :=
  if toolBlockOpen s then ([], { s with deferred := s.deferred ++ [ev] }) else emit s

def openTool (enc : ℕ) (id name : String) (s : StreamEncoder) : List RawSse × StreamEncoder :=
  ([toolStartFrame enc id name], { s with
    toolIds := Function.update s.toolIds enc (some id)
    openBlock := some (enc, .tool) })

def openToolEnc (s : StreamEncoder) : Option ℕ :=
  (s.openBlock.filter (fun b => b.2 = .tool)).map Prod.fst

def messagesToolStart (custom : Bool) (id name : String) (index : ℕ) (s : StreamEncoder) :
    List RawSse × StreamEncoder :=
  let openEnc := openToolEnc s
  let sameOpen := openEnc.any (fun enc => s.tools.last index = some enc)
  let openId := ((openEnc.bind s.toolIds).getD "")
  if sameOpen ∧ (id.isEmpty ∨ openId = id) then
    -- A later chunk repeated this call.
    ([], match openEnc with
      | some enc => noteCustomSlot enc custom s
      | none => s)
  else if sameOpen then
    let closed := closeOpen sj s
    let s := { closed.2 with tools := { closed.2.tools with
      slots := Function.update closed.2.tools.slots index [] } }
    let alloc := allocTool index s
    let opened := openTool alloc.1 id name (noteCustomSlot alloc.1 custom alloc.2)
    (closed.1 ++ opened.1, opened.2)
  else
    match s.heldTools[index]? with
    | some held =>
      let merged := { held with
        id := if held.id.isEmpty then id else held.id
        name := if held.name.isEmpty then name else held.name }
      ([], noteCustomSlot held.enc custom { s with heldTools := s.heldTools.insert index merged })
    | none =>
      let alloc := allocTool index s
      let otherToolOpen := alloc.2.openBlock.any (fun b => b.2 = .tool && b.1 ≠ alloc.1)
      let s := noteCustomSlot alloc.1 custom alloc.2
      if otherToolOpen then
        ([], { s with heldTools := s.heldTools.insert index ⟨alloc.1, id, name, ""⟩ })
      else
        let closed := closeOpen sj s
        let opened := openTool alloc.1 id name closed.2
        (closed.1 ++ opened.1, opened.2)

def messagesToolArg (custom : Bool) (delta : String) (index : ℕ) (s : StreamEncoder) :
    List RawSse × StreamEncoder :=
  let routed := toolEnc index s
  let enc := routed.1
  let s := routed.2
  if s.openBlock = some (enc, .tool) ∧ (custom ∨ (s.customArgs enc).isSome) then
    ([], { s with customArgs := pushStr s.customArgs enc delta })
  else
    match s.heldTools[index]? with
    | some held =>
      if custom ∨ (s.customArgs held.enc).isSome then
        ([], { s with customArgs := pushStr s.customArgs held.enc delta })
      else
        ([], { s with
          heldTools := s.heldTools.insert index { held with args := held.args ++ delta } })
    | none =>
      if enc ∈ s.closedTools then ([], s)
      else if custom ∨ (s.customArgs enc).isSome then
        ([toolArgFrame enc (customInputText sj delta)], s)
      else ([toolArgFrame enc delta], s)

def messagesImage (mediaType data : String) (s : StreamEncoder) : List RawSse × StreamEncoder :=
  let closed := closeOpen sj s
  let index := closed.2.nextBlock
  (closed.1 ++ [contentBlockStart index (imageBlock mediaType data), contentBlockStop index],
    { closed.2 with nextBlock := satAdd index 1 })

def noteMessagesEvent (ev : IrStreamEvent) (s : StreamEncoder) : StreamEncoder :=
  match ev with
  | .serviceTier tier => { s with serviceTier := some tier }
  | .stopSequence text => { s with messages := { s.messages with stopSequence := some text } }
  | .container value => { s with messages := { s.messages with container := some value } }
  | .contextManagement value =>
    { s with messages := { s.messages with contextManagement := some value } }
  | .diagnostics reason => { s with messages := { s.messages with cacheMiss := some reason } }
  | _ => s

def isMessagesSidecar : IrStreamEvent → Bool
  | .serviceTier _ => true
  | .stopSequence _ => true
  | .container _ => true
  | .contextManagement _ => true
  | .diagnostics _ => true
  | _ => false

def messagesEvent (custom : Bool) (ev : IrStreamEvent) (s : StreamEncoder) :
    Except MapError (List RawSse × StreamEncoder) :=
  match ev with
  | .textDelta text => .ok (deferOr ev (emitText sj text) s)
  | .reasoningDelta text =>
    .ok (deferOr ev (blockDelta sj .thinking (thinkingDeltaBody text)) s)
  | .reasoningSignature signature =>
    .ok (deferOr ev (blockDelta sj .thinking (signatureDeltaBody signature)) s)
  | .toolCallStart id name _ index => .ok (messagesToolStart sj custom id name index s)
  | .toolCallArgDelta delta index => .ok (messagesToolArg sj custom delta index s)
  | .finishReason reason _ => .ok ([], { s with finish := some reason })
  | .refusalDelta text => .ok ([], { s with refusal := s.refusal ++ text })
  | .imageDelta mediaType data => .ok (messagesImage sj mediaType data s)
  | .audioTranscriptDelta text => .ok (deferOr ev (emitText sj text) s)
  | .annotationAdded ann =>
    .ok (deferOr ev (blockDelta sj .text
      (citationsDeltaBody <| messagesCitationFromAnnotation ann)) s)
  | .usage u geo => .ok ([], { s with
      usage := some u
      messages := { s.messages with usageInferenceGeo := geo } })
  | .toolCallEnd => .ok ([], s)
  | .audioDelta _ => .ok ([], s)
  | .logprobs _ _ => .ok ([], s)
  | .created _ => .ok ([], s)
  | .serviceTier _ => .ok ([], s)
  | .metadata _ => .ok ([], s)
  | .moderation _ _ => .ok ([], s)
  | .diagnostics _ => .ok ([], s)
  | .container _ => .ok ([], s)
  | .contextManagement _ => .ok ([], s)
  | .stopSequence _ => .ok ([], s)
  | other => (encodeStreamEvent sj .messages other).map (fun f => ([f], s))

def pushMessages (s : StreamEncoder) (ev : IrStreamEvent) :
    Except MapError (List RawSse × StreamEncoder) :=
  let custom := isCustomTool ev
  let ev := customToolAsFunction ev
  let s := noteMessagesEvent ev s
  if !s.started && isMessagesSidecar ev then .ok ([], s)
  else
    let opening := startMessages s
    (messagesEvent sj custom ev opening.2).map (fun r => (opening.1 ++ r.1, r.2))

/-- A deferred event at the end of the stream; an error sends nothing. -/
def pushDeferred (ev : IrStreamEvent) (s : StreamEncoder) : List RawSse × StreamEncoder :=
  match pushMessages sj s ev with
  | .ok r => r
  | .error _ => ([], s)

def messagesStopReason (s : StreamEncoder) : String :=
  let mapped := s.finish.map encodeStopReason
  if !s.refusal.isEmpty ∧ mapped.all (fun r => r = "content_filter") then "refusal"
  else if s.tools.used.Nonempty ∧ mapped.all (fun r => r = "end_turn") then "tool_use"
  else mapped.getD "end_turn"

def messagesUsageBody (s : StreamEncoder) : Option Value :=
  s.usage.map (fun u =>
    insertMessagesCacheCreation
      (insertMessagesServerToolCounts (anthropicUsage u s.messages.usageInferenceGeo)
        s.messages.webSearchRequests s.messages.webFetchRequests)
      s.messages.cacheCreation)

def messagesDeltaFrame (s : StreamEncoder) : RawSse :=
  let delta := Value.object [("stop_reason", messagesStopReason s),
    ("stop_sequence", (s.messages.stopSequence.map Value.string).getD .null)]
  let delta := if s.refusal.isEmpty then delta
    else delta.insert "stop_details" (.object [("type", "refusal"), ("explanation", s.refusal)])
  let data := Value.object [("type", "message_delta"), ("delta", delta)]
  let data := data.insertSome "usage" (messagesUsageBody s)
  let data := data.insertSome "container"
    (if s.messages.containerWritten then none else s.messages.container)
  let data := data.insertSome "context_management" s.messages.contextManagement
  named "message_delta" (data.insertSome "diagnostics"
    (s.messages.cacheMiss.map (fun reason => .object [("cache_miss_reason", reason)])))

/-- The refusal and, with a usage report, the server tool counts are taken. -/
def messagesTaken (s : StreamEncoder) : StreamEncoder :=
  { s with
    refusal := ""
    messages := if s.usage.isSome then
      { s.messages with webSearchRequests := none, webFetchRequests := none }
    else s.messages }

def drainMessages (s : StreamEncoder) : List RawSse × StreamEncoder :=
  let opening := startMessages s
  let closed := closeOpen sj opening.2
  let late := emitEach (pushDeferred sj) closed.2.deferred { closed.2 with deferred := [] }
  let last := closeOpen sj late.2
  (opening.1 ++ closed.1 ++ late.1 ++ last.1, last.2)

def finishMessages (s : StreamEncoder) : List RawSse × StreamEncoder :=
  let drained := drainMessages sj s
  (drained.1 ++ [messagesDeltaFrame drained.2, messageStop], messagesTaken drained.2)

end

end Wiremux.MessagesEncoder
