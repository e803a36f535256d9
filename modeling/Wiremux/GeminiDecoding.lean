import Wiremux.ChatDecoding
import Wiremux.MessagesDecoding

set_option autoImplicit false

/-!
# Decoding Gemini chunks

`decode` gives the first event of the first candidate; `fanOut` gives them all
and numbers the calls across the chunks of a stream.
-/
namespace Wiremux.GeminiDecoding
open JsonValue StreamEvents Completion UsageDecoding FrameDecoding Upstream MessagesDecoding

/-- The first element of the list of candidates. -/
def candidate? (value : Value) : Option Value :=
  ((value.get? "candidates").bind Value.asArray?).bind List.head?

def candidateAt (value : Value) (path : List String) : Option Value :=
  (firstCandidate value).bind fun candidate => pointer? candidate path

def candidateTextAt (value : Value) (path : List String) : Option String :=
  (candidateAt value path).bind Value.asStr?

def refusedReasons : List String :=
  ["SAFETY", "RECITATION", "OTHER", "BLOCKLIST", "PROHIBITED_CONTENT", "SPII", "IMAGE_SAFETY",
    "LANGUAGE"]

def mapFinish (reason : String) (hasFunctionCall : Bool) : String :=
  if reason = "STOP" then (if hasFunctionCall then "tool_calls" else "stop")
  else if reason = "MAX_TOKENS" then "max_tokens"
  else if refusedReasons.contains reason then "content_filter"
  else if reason = "MALFORMED_FUNCTION_CALL" then "malformed_function_call"
  else if asciiLower reason = "stop" then "stop"
  else reason

def mapBlock (reason : String) : String :=
  let mapped := mapFinish reason false
  let isStop := asciiLower reason == "stop"
  if (mapped == reason && !isStop) || (mapped == "stop" && !isStop) then "content_filter" else mapped

def blockEvent (reason : String) : IrStreamEvent := .finishReason (mapBlock reason) (some reason)

def blockReason (value : Value) : Option String :=
  nonempty (textAt value ["promptFeedback", "blockReason"])

def candidateHasFunctionCall (candidate : Value) : Bool :=
  (items (pointer? candidate ["content", "parts"])).any fun part =>
    (part.get? "functionCall").any geminiFunctionCallVisible

def geminiErrorDetail (value : Value) : Option String :=
  (jsonStringError value).orElse fun _ =>
    ((value.get? "error").filter Value.isObject).map fun err =>
      (errorObjectDetail err).getD "vendor error"

def noUsage : IrUsage := ⟨0, 0, 0, 0, 0, 0, 0⟩

/-- The usage of a chunk, or the token count of its candidate. -/
def usageFromChunk (value : Value) : Option IrStreamEvent :=
  match objectAt value ["usageMetadata"] with
  | some usage => some (usageEvent (fromGemini usage))
  | none =>
    (((candidateAt value ["tokenCount"]).bind Value.asU64?).filter fun n => 0 < n).map fun n =>
      .usage { noUsage with completionTokens := min n u32Max } none

def serviceTierFromChunk (value : Value) : Option IrStreamEvent :=
  (objectAt value ["usageMetadata"]).bind fun usage =>
    ((nonempty (((usage.strAt? "serviceTier").orElse fun _ => usage.strAt? "service_tier").map
      trim)).filter fun tier => asciiLower tier != "unspecified").map .serviceTier

def trafficTypeEvents (value : Value) : List IrStreamEvent :=
  ((nonempty ((textAt value ["usageMetadata", "trafficType"]).map trim)).map fun kind =>
    protocol "gemini_traffic_type" kind).toList

def toolUsePromptEvents (value : Value) : List IrStreamEvent :=
  ((pointer? value ["usageMetadata"]).bind fun usage =>
    countEvent "gemini_tool_use_prompt_tokens" (u32Field usage "toolUsePromptTokenCount")).toList

def modalityRowKept (row : Value) : Bool :=
  let modality := (row.strAt? "modality").getD ""
  !modality.isEmpty && asciiLower modality != "image" &&
    ((row.get? "tokenCount").bind Value.asU64?).any fun n => decide (0 < n)

def modalityDetailEvents (value : Value) (key name : String) : List IrStreamEvent :=
  let kept := (items (pointer? value ["usageMetadata", key])).filter modalityRowKept
  if kept.isEmpty then [] else [protocol name (.array kept)]

/-- The start and end of the cited text, when they are numbers. -/
def applyCitationSpan (out : Value) (start stop : Option Value) : Value :=
  (out.insertSome "start_index" (start.filter Value.isNumber)).insertSome "end_index"
    (stop.filter Value.isNumber)

def urlCitation (url : String) (title : Option String) : Value :=
  (Value.object [("type", "url_citation"), ("url", url)]).insertSome "title"
    ((nonempty title).map Value.string)

def firstAt (value : Value) (paths : List (List String)) : Option Value :=
  paths.findSome? (pointer? value)

def annotationFromCitation (cite : Value) : Option Value :=
  (nonempty ((firstAt cite [["uri"], ["url"], ["retrievedUrl"]]).bind Value.asStr?)).map fun url =>
    applyCitationSpan (urlCitation url (cite.strAt? "title")) (cite.get? "startIndex")
      (cite.get? "endIndex")

def annotationFromGroundingChunk (chunk : Value) : Option Value :=
  (nonempty ((firstAt chunk [["web", "uri"], ["web", "url"], ["image", "sourceUri"],
    ["retrievedContext", "uri"], ["maps", "uri"]]).bind Value.asStr?)).map fun url =>
      urlCitation url ((firstAt chunk [["web", "title"], ["image", "title"],
        ["retrievedContext", "title"], ["maps", "title"]]).bind Value.asStr?)

def supportsChunk (index : ℕ) (support : Value) : Bool :=
  (items (support.get? "groundingChunkIndices")).any fun v => v.asU64? == some index

/-- The span and the text of the first support of the chunk. -/
def applyGroundingSupport ( annotation : Value) (index : ℕ) (supports : List Value) : Value :=
  match supports.find? (supportsChunk index) with
  | none => annotation
  | some support =>
    (applyCitationSpan annotation (pointer? support ["segment", "startIndex"])
      (pointer? support ["segment", "endIndex"])).insertSome "segment_text"
        ((nonempty (textAt support ["segment", "text"])).map Value.string)

def groundingAnnotations (supports : Option (List Value)) (index : ℕ) : List Value → List Value
  | [] => []
  | chunk :: rest =>
    ((annotationFromGroundingChunk chunk).map fun annotation =>
      match supports with
      | some supports => applyGroundingSupport annotation index supports
      | none => annotation).toList ++ groundingAnnotations supports (index + 1) rest

def chunkAnnotations (candidate : Option Value) : List Value :=
  let at? (key : String) := (candidate.bind fun c => pointer? c ["groundingMetadata", key]).bind
    Value.asArray?
  groundingAnnotations (at? "groundingSupports") 0 ((at? "groundingChunks").getD [])

def citationLists : List (List String) :=
  [["citationMetadata", "citations"], ["citationMetadata", "citationSources"],
    ["urlContextMetadata", "urlMetadata"]]

def citationAnnotations (candidate : Value) : List Value :=
  citationLists.flatMap fun path =>
    (items (pointer? candidate path)).filterMap fun cite =>
      (annotationFromCitation cite).map fun annotation =>
        annotation.insert
          (if path.head? = some "citationMetadata" then "citation_metadata" else "url_context")
          (.bool true)

def attributionAnnotations (candidate : Option Value) : List Value :=
  (items (candidate.bind fun c => c.get? "groundingAttributions")).filterMap
    annotationFromGroundingChunk

def tokenBytes (token : String) : Value :=
  .array ((token.toList.flatMap String.utf8EncodeChar).map fun b => (b.toNat : Value))

def chatTokenFromGemini (cand : Value) : Value :=
  let token := (cand.strAt? "token").getD ""
  (Value.object [("token", token), ("bytes", tokenBytes token)]).insertSome "logprob"
    (cand.get? "logProbability")

def withTop (item : Value) (top : Option Value) : Value :=
  item.insertSome "top_logprobs" (top.map fun top =>
    .array ((items (top.get? "candidates")).map chatTokenFromGemini))

def logprobTokens (tops : Option (List Value)) (index : ℕ) : List Value → List Value
  | [] => []
  | cand :: rest =>
    withTop (chatTokenFromGemini cand) (tops.bind fun t => t[index]?) ::
      logprobTokens tops (index + 1) rest

def logprobsFromResult (result : Value) : Option Value :=
  ((result.get? "chosenCandidates").bind Value.asArray?).bind fun chosen =>
    if chosen.isEmpty then none
    else some (.array (logprobTokens ((result.get? "topCandidates").bind Value.asArray?) 0 chosen))

def inlineDataEvent (part : Value) : Option IrStreamEvent :=
  (part.get? "inlineData").bind fun inline =>
    let mime := (inline.strAt? "mimeType").getD ""
    (nonempty (inline.strAt? "data")).bind fun data =>
      if "audio/".toList.isPrefixOf (asciiLower mime).toList then some (.audioDelta data)
      else if isImageType mime then some (.imageDelta mime data)
      else none

def geminiCallId (fc : Value) (name : String) (seq : ℕ) : String :=
  (nonempty (fc.strAt? "id")).getD (name ++ "#" ++ toString seq)

def isThought (part : Value) : Bool := (part.get? "thought").bind Value.asBool? == some true

def partText (part : Value) : Option String := nonempty (part.strAt? "text")

def thoughtSignature (part : Value) : Option String := nonempty (part.strAt? "thoughtSignature")

def callArgs (fc : Value) : Option Value :=
  (fc.get? "args").filter fun args =>
    match args with
    | .null => false
    | .object fields => !fields.isEmpty
    | _ => true

def visibleCall (part : Value) : Option Value :=
  (part.get? "functionCall").filter geminiFunctionCallVisible

def thoughtEvent (part : Value) : Option IrStreamEvent :=
  if isThought part then (partText part).map .reasoningDelta else none

def signatureEvent (part : Value) : Option IrStreamEvent :=
  if (part.get? "functionCall").isNone then (thoughtSignature part).map .reasoningSignature else none

def callStart (part fc : Value) (seq index : ℕ) : IrStreamEvent :=
  let name := (fc.strAt? "name").getD ""
  .toolCallStart (geminiCallId fc name seq) name (thoughtSignature part) index

def partEvent (part : Value) : Option IrStreamEvent :=
  (thoughtEvent part).orElse fun _ => (signatureEvent part).orElse fun _ =>
    ((visibleCall part).map fun fc => callStart part fc 0 0).orElse fun _ =>
      (inlineDataEvent part).orElse fun _ => (partText part).map .textDelta

def searchEntryFromValue (value : Value) : Option IrStreamEvent :=
  (nonempty (candidateTextAt value
    ["groundingMetadata", "searchEntryPoint", "renderedContent"])).map .searchEntryPoint

def finishEvent (candidate : Value) : Option IrStreamEvent :=
  (nonempty (candidate.strAt? "finishReason")).map fun reason =>
    .finishReason (mapFinish reason (candidateHasFunctionCall candidate)) (some reason)

/-- The first event of a candidate, by the order of the fields. -/
def decodeCandidate (value candidate : Value) : Option IrStreamEvent :=
  ((items (pointer? candidate ["content", "parts"])).findSome? partEvent).orElse fun _ =>
    ((chunkAnnotations candidate).head?.map .annotationAdded).orElse fun _ =>
      ((citationAnnotations candidate).head?.map .annotationAdded).orElse fun _ =>
        ((attributionAnnotations candidate).head?.map .annotationAdded).orElse fun _ =>
          (((candidate.get? "logprobsResult").bind logprobsFromResult).map fun content =>
              .logprobs content none).orElse fun _ =>
            (finishEvent candidate).orElse fun _ =>
              ((nonempty (candidate.strAt? "finishMessage")).map .refusalDelta).orElse fun _ =>
                (usageFromChunk value).orElse fun _ => searchEntryFromValue value

def onlyUsage (value : Value) : Option IrStreamEvent :=
  if (items (candidateAt value ["content", "parts"])).isEmpty &&
      (candidateTextAt value ["finishReason"]).isNone then usageFromChunk value
  else none

def decodeVisible (value : Value) : Option IrStreamEvent :=
  (onlyUsage value).orElse fun _ =>
    match candidate? value with
    | none => usageFromChunk value
    | some candidate => decodeCandidate value candidate

def decode (value : Value) : Except MapError (Option IrStreamEvent) :=
  match if (candidate? value).isNone then blockReason value else none with
  | some reason => .ok (some (blockEvent reason))
  | none =>
    match if (candidate? value).any candidateVisible then none else geminiErrorDetail value with
    | some detail => .error (.hardError "error" detail)
    | none => .ok (decodeVisible value)

variable (sj : SerdeJson)

def callEvents (part fc : Value) (seq : ℕ) : List IrStreamEvent :=
  let index := (toU32? seq).getD 0
  callStart part fc seq index ::
    ((callArgs fc).map fun args => .toolCallArgDelta (sj.toString args) index).toList

/-- What a part that is no call shows besides thought and signature. -/
def plainPartEvent (part : Value) : Option IrStreamEvent :=
  if geminiSidePartVisible part then some (protocol "gemini_code_part" part)
  else
    (inlineDataEvent part).orElse fun _ =>
      if isThought part then none else (partText part).map .textDelta

/-- The events of a part, and the number of the next call. -/
def geminiPartEvents (part : Value) (seq : ℕ) : List IrStreamEvent × ℕ :=
  let said := (thoughtEvent part).toList ++ (signatureEvent part).toList
  match visibleCall part with
  | some fc => (said ++ callEvents sj part fc seq, seq + 1)
  | none => (said ++ (plainPartEvent part).toList, seq)

def partsEvents : List Value → ℕ → List IrStreamEvent × ℕ
  | [], seq => ([], seq)
  | part :: rest, seq =>
    let first := geminiPartEvents sj part seq
    let later := partsEvents rest first.2
    (first.1 ++ later.1, later.2)

def nonemptyArray (value : Value) : Bool := !(items (some value)).isEmpty

def anyListOf (value : Value) (keys : List String) : Bool :=
  keys.any fun key => !(items (value.get? key)).isEmpty

/-- Side data of the candidate and of the prompt, in the order they are emitted. -/
def sideEvents (value : Value) : List IrStreamEvent :=
  (((candidateAt value ["urlContextMetadata"]).filter fun v => anyListOf v ["urlMetadata"]).map
      (protocol "gemini_url_context")).toList ++
    (((candidateAt value ["citationMetadata"]).filter fun v =>
      anyListOf v ["citationSources", "citations"]).map
        (protocol "gemini_citation_metadata")).toList ++
    (attributionAnnotations (firstCandidate value)).map .annotationAdded ++
    (searchEntryFromValue value).toList ++
    (((candidateAt value ["logprobsResult"]).bind logprobsFromResult).map fun content =>
      .logprobs content none).toList ++
    ((nonempty (candidateTextAt value ["finishMessage"])).map .refusalDelta).toList ++
    (((candidateAt value ["safetyRatings"]).filter nonemptyArray).map
      (protocol "gemini_safety_ratings")).toList ++
    (((pointer? value ["promptFeedback", "safetyRatings"]).filter nonemptyArray).map
      (protocol "gemini_prompt_safety")).toList ++
    ((nonempty ((textAt value ["promptFeedback", "blockReasonMessage"]).map trim)).map fun text =>
      protocol "gemini_block_reason_message" text).toList

def finishReasonText (value : Value) : Option String :=
  nonempty (candidateTextAt value ["finishReason"])

def blockEvents (value : Value) : List IrStreamEvent :=
  match finishReasonText value with
  | some _ => []
  | none => ((blockReason value).map blockEvent).toList

def avgLogprobsEvent (value : Value) : Option IrStreamEvent :=
  ((candidateAt value ["avgLogprobs"]).bind Value.asF64?).map fun score =>
    protocol "gemini_avg_logprobs" (.number score)

def candidateTokensEvent (value : Value) : Option IrStreamEvent :=
  (firstCandidate value).bind fun candidate =>
    countEvent "gemini_candidate_tokens" (u32Field candidate "tokenCount")

def hasFunctionCall (value : Value) : Bool := (firstCandidate value).any candidateHasFunctionCall

def finishEvents (value : Value) : List IrStreamEvent :=
  ((finishReasonText value).map fun reason =>
    .finishReason (mapFinish reason (hasFunctionCall value)) (some reason)).toList

def usageEvents (value : Value) : List IrStreamEvent :=
  (serviceTierFromChunk value).toList ++ trafficTypeEvents value ++ toolUsePromptEvents value ++
    modalityDetailEvents value "promptTokensDetails" "gemini_prompt_token_details" ++
    modalityDetailEvents value "candidatesTokensDetails" "gemini_candidate_token_details" ++
    (usageFromChunk value).toList

def responseIdEvent (value : Value) : Option IrStreamEvent :=
  (nonBlank (value.strAt? "responseId")).map fun id => protocol "gemini_response_id" id

/-- Every event of a chunk with the number of the next call; none when there is no event. -/
def fanOut (value : Value) (seq : ℕ) : Option (List IrStreamEvent × ℕ) :=
  let parts := partsEvents sj (items (candidateAt value ["content", "parts"])) seq
  let out := (responseIdEvent value).toList ++ parts.1 ++
    (chunkAnnotations (firstCandidate value)).map .annotationAdded ++
    (((candidate? value).map citationAnnotations).getD []).map .annotationAdded ++
    sideEvents value ++ blockEvents value ++ (avgLogprobsEvent value).toList ++
    (candidateTokensEvent value).toList ++ finishEvents value ++ usageEvents value
  if out.isEmpty then none else some (out, parts.2)

end Wiremux.GeminiDecoding
