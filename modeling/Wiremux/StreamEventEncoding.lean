import Wiremux.UsageFields

set_option autoImplicit false

/-!
# One event, one frame

The stateless encoders of the five wires. The stateful encoder uses them for
the events it neither opens a block for nor keeps.
-/
namespace Wiremux.StreamEventEncoding
open JsonValue StreamEvents UsageFields

def annotationText (ann : Value) (key : String) : Option String :=
  let found := ((ann.get? "url_citation").bind (fun c => c.get? key)).or (ann.get? key)
  (found.bind Value.asStr?).filter (fun s => !s.isEmpty)

def annotationUrl (ann : Value) : Option String := annotationText ann "url"

def annotationTitle (ann : Value) : Option String := annotationText ann "title"

def annotationToChat (ann : Value) : Value :=
  if ann.strAt? "type" ≠ some "url_citation" ∨ (ann.get? "url_citation").isSome then ann
  else
    .object [("type", "url_citation"), ("url_citation", .object [
      ("start_index", (ann.get? "start_index").getD 0), ("end_index", (ann.get? "end_index").getD 0),
      ("title", (ann.get? "title").getD ""), ("url", (ann.get? "url").getD "")])]

def messagesCitationFromAnnotation (ann : Value) : Value :=
  let citation := Value.object [("type", "web_search_result_location"),
    ("url", (annotationUrl ann).getD ""), ("encrypted_index", ""), ("cited_text", "")]
  citation.insertSome "title" ((annotationTitle ann).map .string)

def converseCitationFromAnnotation (ann : Value) : Value :=
  let url := (annotationUrl ann).getD ""
  let citation := Value.object [("source", url),
    ("location", .object [("web", .object [("url", url)])])]
  citation.insertSome "title" ((annotationTitle ann).map .string)

def annotationWithoutSegmentText (ann : Value) : Value := ann.remove "segment_text"

def groundingChunkFromAnnotation (ann : Value) : Value :=
  let web := Value.object [("uri", (annotationUrl ann).getD "")]
  .object [("web", web.insertSome "title" ((annotationTitle ann).map .string))]

def groundingSupportFromAnnotation (ann : Value) (chunkIndex : ℕ) : Value :=
  let segment := Value.object [("startIndex", (ann.get? "start_index").getD 0),
    ("endIndex", (ann.get? "end_index").getD 0)]
  let segment := segment.insertSome "text"
    (((ann.strAt? "segment_text").filter (fun t => !t.isEmpty)).map .string)
  .object [("segment", segment), ("groundingChunkIndices", .array [chunkIndex])]

def pushLogprobItems : Value → List Value
  | .array items => items
  | .null => []
  | other => [other]

def mergedLogprobItems (content : Value) (refusal : Option Value) : List Value :=
  pushLogprobItems content ++ (refusal.map pushLogprobItems).getD []

def presentLogprobField (value : Option Value) : Option Value :=
  value.filter (fun v => !(v.isNull || v.asArray?.any List.isEmpty))

def chatLogprobsValue (content : Value) (refusal : Option Value) : Option Value :=
  let fields := (Value.object []).insertSome "content" (presentLogprobField (some content))
  match fields.insertSome "refusal" (presentLogprobField refusal) with
  | .object [] => none
  | logprobs => some logprobs

def geminiTokenFromChat (item : Value) : Value :=
  ((Value.object []).insertSome "token" (item.get? "token")).insertSome "logProbability"
    (item.get? "logprob")

def logprobsToResult (content : Value) : Value :=
  let items := content.asArray?.getD []
  let top (item : Value) : Value :=
    let alts := ((item.get? "top_logprobs").bind Value.asArray?).getD []
    .object [("candidates", .array (alts.map geminiTokenFromChat))]
  .object [("chosenCandidates", .array (items.map geminiTokenFromChat)),
    ("topCandidates", .array (items.map top))]

def copyFields (src : Value) (keys : List String) (dst : Value) : Value :=
  keys.foldl (fun acc key => acc.insertSome key (src.get? key)) dst

def moderationResultsToResponses (value : Value) : Value :=
  let first := ((value.get? "results").bind Value.asArray?).bind List.head?
  let model := ((value.get? "model").or (first.bind (fun r => r.get? "model"))).getD ""
  let out := Value.object [("type", "moderation_result"), ("model", model)]
  match first with
  | some r => copyFields r
      ["flagged", "categories", "category_scores", "category_applied_input_types"] out
  | none => out

def toResponsesModerationSide (value : Value) : Value :=
  let kind := value.strAt? "type"
  if kind = some "error" ∨ kind = some "moderation_result" then value
  else if kind = some "moderation_results" ∨
      ((value.get? "results").bind Value.asArray?).isSome then moderationResultsToResponses value
  else value

def responsesModerationValue (input output : Option Value) : Option Value :=
  let obj := (Value.object []).insertSome "input" (input.map toResponsesModerationSide)
  match obj.insertSome "output" (output.map toResponsesModerationSide) with
  | .object [] => none
  | moderation => some moderation

def encodeStopReason (reason : String) : String :=
  if reason = "stop" ∨ reason = "end_turn" then "end_turn"
  else if reason = "length" ∨ reason = "max_tokens" then "max_tokens"
  else if reason = "tool_calls" ∨ reason = "tool_use" then "tool_use"
  else reason

def encodeChatFinish (reason : String) : String :=
  if reason = "max_tokens" ∨ reason = "model_context_window_exceeded" then "length"
  else if reason = "failed" ∨ reason = "cancelled" ∨ reason = "canceled" ∨ reason = "end_turn" ∨
      reason = "stop_sequence" ∨ reason = "pause_turn" then "stop"
  else reason

/-- Chat finish once a tool call has been opened. Only a real `stop` or
Messages `end_turn` becomes `tool_calls`. -/
def finishAfterTool (reason : String) (sawTool : Bool) : String :=
  if sawTool ∧ (reason = "stop" ∨ reason = "end_turn") then "tool_calls"
  else encodeChatFinish reason

def converseFinishReason (reason : String) : String :=
  if reason = "tool_use" ∨ reason = "tool-use" ∨ reason = "tool_calls" then "tool_use"
  else if reason = "max_tokens" ∨ reason = "length" then "max_tokens"
  else if reason = "content_filtered" ∨ reason = "content_filter" ∨ reason = "content-filter" then
    "content_filtered"
  else if reason = "stop_sequence" then "stop_sequence"
  else if reason = "guardrail_intervened" then "guardrail_intervened"
  else "end_turn"

def isGeminiFinishToken (token : String) : Bool :=
  ["STOP", "MAX_TOKENS", "SAFETY", "RECITATION", "OTHER", "BLOCKLIST", "PROHIBITED_CONTENT",
    "SPII", "IMAGE_SAFETY", "LANGUAGE", "MALFORMED_FUNCTION_CALL"].contains token

def isMappedFinishReason (reason : String) : Bool :=
  ["stop", "max_tokens", "length", "content_filter", "tool_calls",
    "malformed_function_call"].contains reason

def encodeGeminiFinish (reason : String) : String :=
  if reason = "max_tokens" ∨ reason = "length" then "MAX_TOKENS"
  else if reason = "content_filter" then "SAFETY"
  else "STOP"

/-- Gemini `finishReason`: a known vendor token, or an unknown one that the
mapped reason kept, else the mapped word. -/
def finishToken (reason : String) (vendor : Option String) : String :=
  match vendor.filter isGeminiFinishToken with
  | some token => token
  | none =>
    match vendor.filter (fun t => t = reason && !isMappedFinishReason reason) with
    | some token => token
    | none => encodeGeminiFinish reason

def responsesTerminal (reason : String) : String × String :=
  if reason = "failed" then ("response.failed", "failed")
  else if reason = "incomplete" ∨ reason = "length" ∨ reason = "max_tokens" ∨
      reason = "content_filter" then ("response.incomplete", "incomplete")
  else ("response.completed", "completed")

def incompleteDetailsReason (reason : String) : Option String :=
  if reason = "content_filter" then some "content_filter"
  else if reason = "length" ∨ reason = "max_tokens" then some "max_output_tokens"
  else none

def usageServiceTierToMessages (tier : String) : Option String :=
  let tier := asciiLower (trim tier)
  if tier = "priority" then some "priority"
  else if tier = "default" ∨ tier = "standard" then some "standard"
  else none

def geminiServiceTier (tier : String) : Option String :=
  let tier := asciiLower (trim tier)
  if tier = "flex" ∨ tier = "priority" ∨ tier = "standard" then some tier
  else if tier = "default" ∨ tier = "auto" then some "standard"
  else none

def converseServiceTier (tier : String) : Option String :=
  let tier := asciiLower (trim tier)
  if tier = "flex" ∨ tier = "priority" ∨ tier = "reserved" ∨ tier = "default" then some tier
  else if tier = "auto" then some "default"
  else none

def stripPrefix (s lead : String) : String :=
  if lead.toList.isPrefixOf s.toList then String.ofList (s.toList.drop lead.length) else s

def converseImageFormat (mediaType : String) : Option String :=
  let media := stripPrefix (asciiLower mediaType) "image/"
  if media = "png" then some "png"
  else if media = "jpeg" ∨ media = "jpg" then some "jpeg"
  else if media = "gif" then some "gif"
  else if media = "webp" then some "webp"
  else none

def dataUrl (mediaType data : String) : String := "data:" ++ mediaType ++ ";base64," ++ data

def chatImageUrlPart (mediaType data : String) : Value :=
  .object [("type", "image_url"), ("image_url", .object [("url", dataUrl mediaType data)])]

def protocolAtRoot : MapError := .invalid "protocol/unknown events are encoded at the stream root"

end Wiremux.StreamEventEncoding
