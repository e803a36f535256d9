import Wiremux.ChatComplete
import Wiremux.StreamEncoderPush

set_option autoImplicit false

/-!
# The complete Gemini body
-/
namespace Wiremux.GeminiComplete
open JsonValue StreamEvents UsageFields StreamEventEncoding StreamEventFrames CompleteTools
open ChatComplete StreamEncoderPush

structure GeminiBody where
  text : String := ""
  refusal : String := ""
  reasoning : String := ""
  reasoningSignature : Option String := none
  finish : Option String := none
  usage : Option IrUsage := none
  groundingChunks : List Value := []
  groundingSupports : List Value := []
  searchEntry : Option String := none
  mediaParts : List Value := []
  logprobsContent : List Value := []
  serviceTier : Option String := none
  responseId : Option String := none
  safetyRatings : Option Value := none
  promptSafety : Option Value := none
  blockReasonMessage : Option String := none
  trafficType : Option String := none
  toolUsePromptTokens : Option ℕ := none
  avgLogprobs : Option Number := none
  candidateTokens : Option ℕ := none
  promptTokenDetails : Option Value := none
  candidateTokenDetails : Option Value := none
  urlContext : Option Value := none
  citationMetadata : Option Value := none
  codeParts : List Value := []
  tools : IndexedTools := {}

def plainText (text : String) : Value := .object [("text", text)]

def mediaBefore (text : String) (parts : List Value) : List Value :=
  if text.isEmpty then parts else parts ++ [plainText text]

def geminiProtocolField (itemType : String) (payload : Value) (b : GeminiBody) : GeminiBody :=
  match itemType with
  | "gemini_response_id" => { b with responseId := (nonBlankStr? payload).or b.responseId }
  | "gemini_safety_ratings" =>
    if payload.isNonEmptyArray then { b with safetyRatings := some payload } else b
  | "gemini_prompt_safety" =>
    if payload.isNonEmptyArray then { b with promptSafety := some payload } else b
  | "gemini_block_reason_message" => { b with blockReasonMessage := trimmedPayload payload }
  | "gemini_traffic_type" => { b with trafficType := trimmedPayload payload }
  | "gemini_tool_use_prompt_tokens" => { b with toolUsePromptTokens := countU32? payload }
  | "gemini_avg_logprobs" => { b with avgLogprobs := payload.asF64? }
  | "gemini_candidate_tokens" => { b with candidateTokens := countU32? payload }
  | "gemini_prompt_token_details" =>
    if payload.asArray?.isSome then { b with promptTokenDetails := some payload } else b
  | "gemini_candidate_token_details" =>
    if payload.asArray?.isSome then { b with candidateTokenDetails := some payload } else b
  | "gemini_url_context" =>
    if payload.isObject then { b with urlContext := some payload } else b
  | "gemini_citation_metadata" =>
    if payload.isObject then { b with citationMetadata := some payload } else b
  | "gemini_code_part" =>
    if geminiCodeKeys.any (fun key => (payload.get? key).isSome) then
      { b with codeParts := b.codeParts ++ [payload] }
    else b
  | _ => b

/-- An annotation that stands for a URL context or citation metadata is left out. -/
def isGrounding (ann : Value) : Bool :=
  (ann.get? "url_context").bind Value.asBool? ≠ some true &&
    (ann.get? "citation_metadata").bind Value.asBool? ≠ some true

def geminiBodyEvent (b : GeminiBody) : IrStreamEvent → GeminiBody
  | .textDelta delta => { b with text := b.text ++ delta }
  | .audioTranscriptDelta delta => { b with text := b.text ++ delta }
  | .refusalDelta delta => { b with refusal := b.refusal ++ delta }
  | .annotationAdded ann =>
    if isGrounding ann then { b with
      groundingChunks := b.groundingChunks ++ [ groundingChunkFromAnnotation ann]
      groundingSupports := b.groundingSupports ++
        [ groundingSupportFromAnnotation ann b.groundingChunks.length] }
    else b
  | .searchEntryPoint rendered => { b with searchEntry := some rendered }
  | .audioDelta data => { b with
      mediaParts := mediaBefore b.text b.mediaParts ++ [inlineDataPart "audio/mpeg" data]
      text := "" }
  | .imageDelta mediaType data => { b with
      mediaParts := mediaBefore b.text b.mediaParts ++ [inlineDataPart mediaType data]
      text := "" }
  | .logprobs content refusal =>
    { b with logprobsContent := b.logprobsContent ++ mergedLogprobItems content refusal }
  | .reasoningDelta delta => { b with reasoning := b.reasoning ++ delta }
  | .reasoningSignature signature => { b with reasoningSignature := some signature }
  | .finishReason reason vendor => { b with finish := some (finishToken reason vendor) }
  | .usage u _ => { b with usage := some u }
  | .toolCallStart id name signature index => { b with
      tools := indexedToolStart index id name false (signature.filter (fun s => !s.isEmpty))
        b.tools }
  | .customToolCallStart id name index =>
    { b with tools := indexedToolStart index id name true none b.tools }
  | .toolCallArgDelta delta index => { b with tools := indexedToolDelta index delta b.tools }
  | .customToolCallInputDelta delta index =>
    { b with tools := indexedToolDelta index delta b.tools }
  | .serviceTier tier => { b with serviceTier := (geminiServiceTier tier).or b.serviceTier }
  | .protocol itemType payload => geminiProtocolField itemType payload b
  | _ => b

def geminiFunctionCallValue (sj : SerdeJson) (tool : IndexedTool) : Option Value :=
  if tool.name.isEmpty then none
  else some (functionCallPart tool.id tool.name (parsedToolInput sj tool.args tool.custom)
    tool.signature)

def thoughtPart (b : GeminiBody) : List Value :=
  if b.reasoning.isEmpty && b.reasoningSignature.isNone then []
  else [(Value.object [("text", b.reasoning), ("thought", .bool true)]).insertSome
    "thoughtSignature" (b.reasoningSignature.map .string)]

def geminiParts (sj : SerdeJson) (b : GeminiBody) : List Value :=
  thoughtPart b ++ mediaBefore b.text b.mediaParts ++ b.codeParts ++
    (indexedToolFinish b.tools).filterMap (fun p => geminiFunctionCallValue sj p.2)

def groundingMetadata (b : GeminiBody) : Option Value :=
  if b.groundingChunks.isEmpty && b.searchEntry.isNone then none
  else
    let metadata := insertItems (.object []) "groundingChunks" b.groundingChunks
    let metadata := insertItems metadata "groundingSupports" b.groundingSupports
    some (metadata.insertSome "searchEntryPoint"
      (b.searchEntry.map (fun html => .object [("renderedContent", .string html)])))

def geminiBodyCandidate (sj : SerdeJson) (b : GeminiBody) : Value :=
  let candidate := Value.object [("content",
    .object [("role", "model"), ("parts", .array (geminiParts sj b))])]
  let candidate := candidate.insertSome "finishReason" (b.finish.map .string)
  let candidate := candidate.insertSome "avgLogprobs" (b.avgLogprobs.map .number)
  let candidate := candidate.insertSome "tokenCount"
    ((b.candidateTokens.filter (fun n => 0 < n)).map (fun n => .number (.posInt n)))
  let candidate := candidate.insertSome "safetyRatings" b.safetyRatings
  let candidate := candidate.insertSome "urlContextMetadata" b.urlContext
  let candidate := candidate.insertSome "citationMetadata" b.citationMetadata
  let candidate := insertText candidate "finishMessage" b.refusal
  let candidate := candidate.insertSome "groundingMetadata" ( groundingMetadata b)
  if b.logprobsContent.isEmpty then candidate
  else candidate.insert "logprobsResult" (logprobsToResult (.array b.logprobsContent))

def promptFeedback (b : GeminiBody) : Option Value :=
  if b.promptSafety.isNone && b.blockReasonMessage.isNone then none
  else some (((Value.object []).insertSome "safetyRatings" b.promptSafety).insertSome
    "blockReasonMessage" (b.blockReasonMessage.map .string))

def geminiBodyUsage (b : GeminiBody) : Option Value :=
  let usage := b.usage.map (fun u =>
    let usage := insertGeminiTrafficType (geminiUsage u) b.trafficType
    let usage := insertGeminiToolUsePromptTokens usage b.toolUsePromptTokens
    let usage := insertGeminiModalityDetails usage "promptTokensDetails" b.promptTokenDetails
    insertGeminiModalityDetails usage "candidatesTokensDetails" b.candidateTokenDetails)
  match b.serviceTier with
  | some tier => some ((usage.getD (.object [])).insert "serviceTier" tier)
  | none => usage

def geminiBodyValue (sj : SerdeJson) (model : String) (b : GeminiBody) : Value :=
  let out := Value.object [("candidates", .array [geminiBodyCandidate sj b]),
    ("responseId", b.responseId.getD "gemini-wiremux")]
  let out := insertText out "modelVersion" model
  let out := out.insertSome "promptFeedback" (promptFeedback b)
  out.insertSome "usageMetadata" (geminiBodyUsage b)

def encodeGeminiComplete (sj : SerdeJson) (evs : List IrStreamEvent) (model : String) : Value :=
  geminiBodyValue sj model (evs.foldl geminiBodyEvent {})

end Wiremux.GeminiComplete
