import Wiremux.ChatComplete
import Wiremux.ResponsesEncoder

set_option autoImplicit false

/-!
# The complete Responses body
-/
namespace Wiremux.ResponsesComplete
open JsonValue StreamEvents UsageFields StreamEventEncoding StreamEventFrames EncoderState
open CompleteTools ChatComplete ResponsesEncoder

structure ResponsesBody where
  text : String := ""
  refusal : String := ""
  reasoning : String := ""
  reasoningSignature : Option String := none
  finish : Option String := none
  responsesId : Option String := none
  previousId : Option String := none
  messageId : Option String := none
  messageStatus : Option String := none
  messagePhase : Option String := none
  messageAgent : Option Value := none
  reasoningId : Option String := none
  reasoningStatus : Option String := none
  reasoningContent : Option Value := none
  usage : Option IrUsage := none
  annotations : List Value := []
  audioData : String := ""
  audioTranscript : String := ""
  images : List Value := []
  logprobsContent : List Value := []
  created : Option ℤ := none
  serviceTier : Option String := none
  metadata : Option (List (String × String)) := none
  moderation : Option (Option Value × Option Value) := none
  toolExtras : ℕ → Option ResponsesToolExtra := fun _ => none
  replayItems : List Value := []
  sawReasoningItem : Bool := false
  tools : IndexedTools := {}

def replayItem (itemType : String) (payload : Value) (b : ResponsesBody) : ResponsesBody :=
  if responsesOutputItem itemType payload then { b with
    replayItems := b.replayItems ++ [payload]
    sawReasoningItem := b.sawReasoningItem || itemType = "reasoning" }
  else b

def responsesProtocolField (itemType : String) (payload : Value) (b : ResponsesBody) :
    ResponsesBody :=
  match toolExtraFromProtocol itemType payload with
  | some extra => { b with toolExtras := mergeExtra b.toolExtras extra.1 extra.2 }
  | none =>
    match itemType with
    | "responses_id" => { b with responsesId := (nonBlankStr? payload).or b.responsesId }
    | "responses_previous_id" => { b with previousId := (nonBlankStr? payload).or b.previousId }
    | "responses_message_id" => { b with messageId := (nonBlankStr? payload).or b.messageId }
    | "responses_message_status" =>
      { b with messageStatus := (nonBlankStr? payload).or b.messageStatus }
    | "responses_message_phase" =>
      { b with messagePhase := (nonBlankStr? payload).or b.messagePhase }
    | "responses_message_agent" =>
      if (payload.strAt? "agent_name").any (fun name => !name.isEmpty) then
        { b with messageAgent := some payload }
      else replayItem itemType payload b
    | "responses_reasoning_id" => { b with reasoningId := (nonEmptyStr? payload).or b.reasoningId }
    | "responses_reasoning_status" =>
      { b with reasoningStatus := (nonEmptyStr? payload).or b.reasoningStatus }
    | "responses_reasoning_content" =>
      if payload.isNonEmptyArray then { b with reasoningContent := some payload } else b
    | _ => replayItem itemType payload b

/-- The text so far becomes a part of its own before an image. -/
def outputTextBefore (text : String) (parts : List Value) : List Value :=
  if text.isEmpty then parts else parts ++ [outputText text]

def responsesBodyEvent (b : ResponsesBody) : IrStreamEvent → ResponsesBody
  | .textDelta delta => { b with text := b.text ++ delta }
  | .refusalDelta delta => { b with refusal := b.refusal ++ delta }
  | .reasoningDelta delta => { b with reasoning := b.reasoning ++ delta }
  | .reasoningSignature signature => { b with reasoningSignature := some signature }
  | .annotationAdded ann =>
    { b with annotations := b.annotations ++ [ annotationWithoutSegmentText ann] }
  | .audioDelta data => { b with audioData := b.audioData ++ data }
  | .imageDelta mediaType data => { b with
      images := outputTextBefore b.text b.images ++ [outputImagePart mediaType data]
      text := "" }
  | .audioTranscriptDelta text => { b with audioTranscript := b.audioTranscript ++ text }
  | .logprobs content refusal =>
    { b with logprobsContent := b.logprobsContent ++ mergedLogprobItems content refusal }
  | .created unix => { b with created := some unix }
  | .serviceTier tier => { b with serviceTier := some tier }
  | .metadata entries => { b with metadata := some entries }
  | .moderation input output => { b with moderation := some (input, output) }
  | .finishReason reason _ => { b with finish := some reason }
  | .usage u _ => { b with usage := some u }
  | .toolCallStart id name _ index =>
    { b with tools := indexedToolStart index id name false none b.tools }
  | .customToolCallStart id name index =>
    { b with tools := indexedToolStart index id name true none b.tools }
  | .toolCallArgDelta delta index => { b with tools := indexedToolDelta index delta b.tools }
  | .customToolCallInputDelta delta index =>
    { b with tools := indexedToolDelta index delta b.tools }
  | .protocol itemType payload => responsesProtocolField itemType payload b
  | _ => b

def responsesToolCallValue (tool : IndexedTool) (extra : ResponsesToolExtra) : Value :=
  writeItem extra (if tool.custom then customToolCallItem tool.id tool.name tool.args
    else functionCallItem tool.id tool.name tool.args)

/-- The first call at an index takes the sidecar fields of the index. -/
def responsesToolCalls : (ℕ → Option ResponsesToolExtra) → List (ℕ × IndexedTool) → List Value
  | _, [] => []
  | extras, (index, tool) :: rest =>
    responsesToolCallValue tool ((extras index).getD {}) ::
      responsesToolCalls (Function.update extras index none) rest

def responsesReasoningItem (b : ResponsesBody) : List Value :=
  let keepReasoning := b.reasoningId.isSome || b.reasoningStatus.isSome ||
    b.reasoningContent.isSome
  if !b.sawReasoningItem && (!b.reasoning.isEmpty || b.reasoningSignature.isSome || keepReasoning)
  then
    let item := Value.object [("type", "reasoning")]
    let item := item.insertSome "id" (b.reasoningId.map .string)
    let item := item.insertSome "status" (b.reasoningStatus.map .string)
    let item := if b.reasoning.isEmpty then item
      else item.insert "summary" (.array [.object [("type", "summary_text"),
        ("text", b.reasoning)]])
    let item := item.insertSome "content" b.reasoningContent
    [item.insertSome "signature" (b.reasoningSignature.map .string)]
  else []

def responsesContent (b : ResponsesBody) : List Value :=
  let content := decorateFirstText b.annotations b.logprobsContent
    (outputTextBefore b.text b.images)
  if b.refusal.isEmpty then content
  else content ++ [.object [("type", "refusal"), ("refusal", b.refusal)]]

def responsesMessage (b : ResponsesBody) : List Value :=
  if b.text.isEmpty && b.refusal.isEmpty && b.annotations.isEmpty && b.logprobsContent.isEmpty &&
      b.images.isEmpty then []
  else
    let message := Value.object [("type", "message"), ("role", "assistant"),
      ("content", .array (responsesContent b))]
    let message := message.insertSome "id" (b.messageId.map .string)
    let message := message.insertSome "status" (b.messageStatus.map .string)
    let message := message.insertSome "phase" (b.messagePhase.map .string)
    [message.insertSome "agent" b.messageAgent]

def responsesAudio (b : ResponsesBody) : List Value :=
  if b.audioData.isEmpty && b.audioTranscript.isEmpty then []
  else [insertText (insertText (.object [("type", "output_audio")]) "data" b.audioData)
    "transcript" b.audioTranscript]

def responsesOutput (b : ResponsesBody) : List Value :=
  b.replayItems ++ responsesReasoningItem b ++ responsesMessage b ++ responsesAudio b ++
    responsesToolCalls b.toolExtras (indexedToolFinish b.tools)

def responsesCompleteStatus (reason : String) : String :=
  if reason = "failed" then "failed"
  else if reason = "incomplete" ∨ reason = "length" ∨ reason = "max_tokens" ∨
      reason = "content_filter" then "incomplete"
  else "completed"

def responsesBodyValue (model : String) (b : ResponsesBody) : Value :=
  let out := Value.object [("id", b.responsesId.getD "resp_wiremux"), ("object", "response"),
    ("status", ((b.finish.map responsesCompleteStatus).getD "completed")),
    ("output", .array (responsesOutput b))]
  let out := out.insertSome "previous_response_id" (b.previousId.map .string)
  let out := out.insertSome "incomplete_details"
    ((b.finish.bind incompleteDetailsReason).map (fun d => .object [("reason", .string d)]))
  let out := insertText out "model" model
  let out := out.insertSome "created_at" (b.created.map .ofInt)
  let out := out.insertSome "service_tier" (b.serviceTier.map .string)
  let out := out.insertSome "metadata"
    ((b.metadata.filter (fun m => !m.isEmpty)).map stringMap)
  let out := out.insertSome "moderation"
    (b.moderation.bind (fun m => responsesModerationValue m.1 m.2))
  let out := insertText out "output_text" b.text
  out.insertSome "usage" (b.usage.map responsesUsage)

def encodeResponsesComplete (evs : List IrStreamEvent) (model : String) : Value :=
  responsesBodyValue model (evs.foldl responsesBodyEvent {})

end Wiremux.ResponsesComplete
