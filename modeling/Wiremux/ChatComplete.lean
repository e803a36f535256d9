import Wiremux.CompleteTools

set_option autoImplicit false

/-!
# The complete Chat body

One pass over the events fills a record; the body is written from it.
-/
namespace Wiremux.ChatComplete
open JsonValue StreamEvents UsageFields StreamEventEncoding StreamEventFrames CompleteTools

structure ChatBody where
  text : String := ""
  refusal : String := ""
  reasoning : String := ""
  reasoningSignature : Option String := none
  finish : Option String := none
  usage : Option IrUsage := none
  annotations : List Value := []
  audioData : String := ""
  audioTranscript : String := ""
  audioId : Option String := none
  audioExpires : Option Value := none
  acceptedPredictionTokens : Option ℕ := none
  rejectedPredictionTokens : Option ℕ := none
  images : List Value := []
  logprobsContent : List Value := []
  logprobsRefusal : List Value := []
  created : Option ℤ := none
  serviceTier : Option String := none
  systemFingerprint : Option String := none
  chatCompletionId : Option String := none
  metadata : Option (List (String × String)) := none
  moderation : Option (Option Value × Option Value) := none
  tools : IndexedTools := {}

def textPart (text : String) : Value := .object [("type", "text"), ("text", text)]

/-- The text so far becomes a part of its own before a part of another kind. -/
def partsBefore (text : String) (parts : List Value) : List Value :=
  if text.isEmpty then parts else parts ++ [textPart text]

def chatProtocolField (itemType : String) (payload : Value) (b : ChatBody) : ChatBody :=
  match nonBlankStr? payload with
  | some text =>
    if itemType = "system_fingerprint" then { b with systemFingerprint := some text }
    else if itemType = "chat_completion_id" then { b with chatCompletionId := some text }
    else if itemType = "chat_audio_id" then { b with audioId := some text }
    else b
  | none =>
    if itemType = "chat_audio_expires" ∧ payload.isNumber then
      { b with audioExpires := some payload }
    else if itemType = "chat_accepted_prediction_tokens" then
      { b with acceptedPredictionTokens := countU32? payload }
    else if itemType = "chat_rejected_prediction_tokens" then
      { b with rejectedPredictionTokens := countU32? payload }
    else b

def chatBodyEvent (b : ChatBody) : IrStreamEvent → ChatBody
  | .textDelta delta => { b with text := b.text ++ delta }
  | .refusalDelta delta => { b with refusal := b.refusal ++ delta }
  | .reasoningDelta delta => { b with reasoning := b.reasoning ++ delta }
  | .reasoningSignature signature => { b with reasoningSignature := some signature }
  | .annotationAdded ann => { b with annotations := b.annotations ++ [ annotationToChat ann] }
  | .audioDelta data => { b with audioData := b.audioData ++ data }
  | .imageDelta mediaType data => { b with
      images := partsBefore b.text b.images ++ [chatImageUrlPart mediaType data]
      text := "" }
  | .audioTranscriptDelta text => { b with audioTranscript := b.audioTranscript ++ text }
  | .logprobs content refusal => { b with
      logprobsContent := b.logprobsContent ++ pushLogprobItems content
      logprobsRefusal := b.logprobsRefusal ++ (refusal.map pushLogprobItems).getD [] }
  | .created unix => { b with created := some unix }
  | .serviceTier tier => { b with serviceTier := some tier }
  | .protocol itemType payload => chatProtocolField itemType payload b
  | .metadata entries => { b with metadata := some entries }
  | .moderation input output => { b with moderation := some (input, output) }
  | .finishReason reason _ => { b with finish := some reason }
  | .usage u _ => { b with usage := some u }
  | .toolCallStart id name _ index =>
    { b with tools := indexedToolStart index id name false none b.tools }
  | .customToolCallStart id name index =>
    { b with tools := indexedToolStart index id name true none b.tools }
  | .toolCallArgDelta delta index => { b with tools := indexedToolDelta index delta b.tools }
  | .customToolCallInputDelta delta index =>
    { b with tools := indexedToolDelta index delta b.tools }
  | _ => b

def chatToolCallValue (tool : IndexedTool) : Value :=
  if tool.custom then .object [("id", tool.id), ("type", "custom"),
    ("custom", .object [("name", tool.name), ("input", tool.args)])]
  else .object [("id", tool.id), ("type", "function"),
    ("function", .object [("name", tool.name), ("arguments", tool.args)])]

def chatToolCalls (b : ChatBody) : List Value :=
  (indexedToolFinish b.tools).map (fun p => chatToolCallValue p.2)

def chatMessageContent (text refusal : String) (images : List Value) (noTools : Bool) : Value :=
  if images.isEmpty then
    if text.isEmpty && (!refusal.isEmpty || !noTools) then .null else text
  else .array (partsBefore text images)

def chatBodyFinish (b : ChatBody) : Option String :=
  let sawTool := !(chatToolCalls b).isEmpty
  match b.finish with
  | some reason => some (finishAfterTool reason sawTool)
  | none => if sawTool then some "tool_calls" else none

def chatAudio (b : ChatBody) : Option Value :=
  if b.audioData.isEmpty && b.audioTranscript.isEmpty && b.audioId.isNone && b.audioExpires.isNone
  then none
  else
    let audio := (Value.object []).insertSome "id" (b.audioId.map .string)
    let audio := audio.insertSome "expires_at" b.audioExpires
    let audio := if b.audioData.isEmpty then audio else audio.insert "data" b.audioData
    some (if b.audioTranscript.isEmpty then audio
      else audio.insert "transcript" b.audioTranscript)

def insertItems (v : Value) (key : String) (items : List Value) : Value :=
  if items.isEmpty then v else v.insert key (.array items)

def insertText (v : Value) (key text : String) : Value :=
  if text.isEmpty then v else v.insert key text

def chatMessage (b : ChatBody) : Value :=
  let calls := chatToolCalls b
  let message := Value.object [("role", "assistant"),
    ("content", chatMessageContent b.text b.refusal b.images calls.isEmpty)]
  let message := insertItems message "tool_calls" calls
  let message := insertText message "refusal" b.refusal
  let message := insertText message "reasoning_content" b.reasoning
  let message := message.insertSome "reasoning_signature" (b.reasoningSignature.map .string)
  let message := insertItems message "annotations" b.annotations
  message.insertSome "audio" (chatAudio b)

def chatChoice (b : ChatBody) : Value :=
  let choice := Value.object [("index", 0), ("message", chatMessage b)]
  let choice := if b.logprobsContent.isEmpty && b.logprobsRefusal.isEmpty then choice
    else choice.insert "logprobs" (insertItems (insertItems (.object []) "content" b.logprobsContent)
      "refusal" b.logprobsRefusal)
  choice.insertSome "finish_reason" ((chatBodyFinish b).map .string)

def chatModerationValue (input output : Option Value) : Option Value :=
  match ((Value.object []).insertSome "input" input).insertSome "output" output with
  | .object [] => none
  | moderation => some moderation

def chatBodyUsage (b : ChatBody) : Option Value :=
  b.usage.map (fun u => insertChatPredictionTokens (chatUsage u) b.acceptedPredictionTokens
    b.rejectedPredictionTokens)

def chatBodyValue (model : String) (b : ChatBody) : Value :=
  let out := Value.object [("id", b.chatCompletionId.getD "chatcmpl-wiremux"),
    ("object", "chat.completion"), ("choices", .array [chatChoice b])]
  let out := insertText out "model" model
  let out := out.insertSome "created" (b.created.map .ofInt)
  let out := out.insertSome "service_tier" (b.serviceTier.map .string)
  let out := out.insertSome "system_fingerprint" (b.systemFingerprint.map .string)
  let out := out.insertSome "metadata"
    ((b.metadata.filter (fun m => !m.isEmpty)).map stringMap)
  let out := out.insertSome "moderation"
    (b.moderation.bind (fun m => chatModerationValue m.1 m.2))
  out.insertSome "usage" (chatBodyUsage b)

def encodeChatComplete (evs : List IrStreamEvent) (model : String) : Value :=
  chatBodyValue model (evs.foldl chatBodyEvent {})

end Wiremux.ChatComplete
