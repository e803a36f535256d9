import Wiremux.StreamEventEncoding

set_option autoImplicit false

/-!
# Frame shapes and the stateless encoders

Each shape is the `json!` literal of the source. `encodeStreamEvent` copies
protocol and unknown events as they are and sends every other event through
its wire's `encode`.
-/
namespace Wiremux.StreamEventFrames
open JsonValue StreamEvents UsageFields StreamEventEncoding

def contentBlockStart (index : ℕ) (block : Value) : RawSse :=
  named "content_block_start"
    (.object [("type", "content_block_start"), ("index", index), ("content_block", block)])

def contentBlockDelta (index : ℕ) (delta : Value) : RawSse :=
  named "content_block_delta"
    (.object [("type", "content_block_delta"), ("index", index), ("delta", delta)])

def contentBlockStop (index : ℕ) : RawSse :=
  named "content_block_stop" (.object [("type", "content_block_stop"), ("index", index)])

def textDeltaBody (text : String) : Value := .object [("type", "text_delta"), ("text", text)]

def thinkingDeltaBody (text : String) : Value :=
  .object [("type", "thinking_delta"), ("thinking", text)]

def signatureDeltaBody (signature : String) : Value :=
  .object [("type", "signature_delta"), ("signature", signature)]

def citationsDeltaBody (citation : Value) : Value :=
  .object [("type", "citations_delta"), ("citation", citation)]

def inputJsonDeltaBody (partialJson : String) : Value :=
  .object [("type", "input_json_delta"), ("partial_json", partialJson)]

def toolUseBlock (id name : String) : Value :=
  .object [("type", "tool_use"), ("id", id), ("name", name), ("input", .object [])]

def imageBlock (mediaType data : String) : Value :=
  .object [("type", "image"), ("source", .object [("type", "base64"), ("media_type", mediaType),
    ("data", data)])]

def messageDelta (fields : List (String × Value)) : RawSse :=
  named "message_delta" (.object (("type", "message_delta") :: fields))

def messageStop : RawSse := named "message_stop" (.object [("type", "message_stop")])

def messagesEncode (sj : SerdeJson) : IrStreamEvent → Except MapError RawSse
  | .textDelta text => .ok (contentBlockDelta 0 (textDeltaBody text))
  | .audioTranscriptDelta text => .ok (contentBlockDelta 0 (textDeltaBody text))
  | .refusalDelta text => .ok (messageDelta [("delta", .object [("stop_details",
      .object [("type", "refusal"), ("explanation", text)])])])
  | .reasoningDelta text => .ok (contentBlockDelta 0 (thinkingDeltaBody text))
  | .reasoningSignature signature => .ok (contentBlockDelta 0 (signatureDeltaBody signature))
  | .toolCallStart id name _ index => .ok (contentBlockStart index (toolUseBlock id name))
  | .customToolCallStart id name index => .ok (contentBlockStart index (toolUseBlock id name))
  | .toolCallArgDelta delta index => .ok (contentBlockDelta index (inputJsonDeltaBody delta))
  | .customToolCallInputDelta delta index =>
    .ok (contentBlockDelta index (inputJsonDeltaBody (customInputText sj delta)))
  | .annotationAdded ann =>
    .ok (contentBlockDelta 0 (citationsDeltaBody <| messagesCitationFromAnnotation ann))
  | .serviceTier tier =>
    match usageServiceTierToMessages tier with
    | some mapped => .ok (named "message_start" (.object [("type", "message_start"),
        ("message", .object [("usage", .object [("input_tokens", 0), ("output_tokens", 0),
          ("service_tier", mapped)])])]))
    | none => .ok (contentBlockDelta 0 (textDeltaBody ""))
  | .imageDelta mediaType data => .ok (contentBlockStart 0 (imageBlock mediaType data))
  | .audioDelta _ => .ok (contentBlockDelta 0 (textDeltaBody ""))
  | .logprobs _ _ => .ok (contentBlockDelta 0 (textDeltaBody ""))
  | .created _ => .ok (contentBlockDelta 0 (textDeltaBody ""))
  | .metadata _ => .ok (contentBlockDelta 0 (textDeltaBody ""))
  | .moderation _ _ => .ok (contentBlockDelta 0 (textDeltaBody ""))
  | .toolCallEnd => .ok (contentBlockStop 0)
  | .usage u geo => .ok (named "message_delta" (encodeAnthropic u geo))
  | .finishReason reason _ => .ok (messageDelta [("delta", .object
      [("stop_reason", encodeStopReason reason), ("stop_sequence", .null)])])
  | .diagnostics reason => .ok (messageDelta [("delta", .object []),
      ("diagnostics", .object [("cache_miss_reason", reason)])])
  | .container value => .ok (messageDelta [("delta", .object []), ("container", value)])
  | .stopSequence _ => .ok (messageDelta [("delta", .object [])])
  | .searchEntryPoint _ => .ok (messageDelta [("delta", .object [])])
  | .contextManagement value =>
    .ok (messageDelta [("delta", .object []), ("context_management", value)])
  | .done => .ok messageStop
  | .protocol _ _ => .error protocolAtRoot
  | .unknown _ _ => .error protocolAtRoot

def chatDelta (delta : Value) : RawSse :=
  unnamed (.object [("choices", .array [.object [("index", 0), ("delta", delta)]])])

def chatToolCallDelta (call : Value) : RawSse := chatDelta (.object [("tool_calls", .array [call])])

def chatFunctionStart (index : ℕ) (id name : String) : Value :=
  .object [("index", index), ("id", id), ("type", "function"),
    ("function", .object [("name", name), ("arguments", "")])]

def chatFunctionArgs (index : ℕ) (delta : String) : Value :=
  .object [("index", index), ("function", .object [("arguments", delta)])]

def chatCustomStart (index : ℕ) (id name : String) : Value :=
  .object [("index", index), ("id", id), ("type", "custom"),
    ("custom", .object [("name", name), ("input", "")])]

def chatCustomInput (index : ℕ) (delta : String) : Value :=
  .object [("index", index), ("type", "custom"), ("custom", .object [("input", delta)])]

def chatFields (fields : List (String × Value)) : RawSse :=
  unnamed (.object (fields ++ [("choices", .array [])]))

def chatFinish (reason : String) : RawSse :=
  unnamed (.object [("choices", .array [.object [("index", 0), ("delta", .object []),
    ("finish_reason", reason)]])])

def stringMap (entries : List (String × String)) : Value :=
  .object (entries.map (fun e => (e.1, .string e.2)))

def chatEncode : IrStreamEvent → Except MapError RawSse
  | .textDelta text => .ok (chatDelta (.object [("content", text)]))
  | .refusalDelta text => .ok (chatDelta (.object [("refusal", text)]))
  | .reasoningDelta text => .ok (chatDelta (.object [("reasoning_content", text)]))
  | .reasoningSignature signature => .ok (chatDelta (.object [("reasoning_signature", signature)]))
  | .toolCallStart id name _ index => .ok (chatToolCallDelta (chatFunctionStart index id name))
  | .toolCallArgDelta delta index => .ok (chatToolCallDelta (chatFunctionArgs index delta))
  | .toolCallEnd => .ok (chatDelta (.object []))
  | .annotationAdded ann =>
    .ok (chatDelta (.object [("annotations", .array [annotationToChat ann])]))
  | .audioDelta data => .ok (chatDelta (.object [("audio", .object [("data", data)])]))
  | .imageDelta mediaType data =>
    .ok (chatDelta (.object [("content", .array [chatImageUrlPart mediaType data])]))
  | .audioTranscriptDelta text =>
    .ok (chatDelta (.object [("audio", .object [("transcript", text)])]))
  | .customToolCallStart id name index => .ok (chatToolCallDelta (chatCustomStart index id name))
  | .customToolCallInputDelta delta index => .ok (chatToolCallDelta (chatCustomInput index delta))
  | .logprobs content refusal =>
    let choice := Value.object [("index", 0), ("delta", .object [])]
    let choice := choice.insertSome "logprobs" (chatLogprobsValue content refusal)
    .ok (unnamed (.object [("choices", .array [choice])]))
  | .created unix => .ok (chatFields [("created", .ofInt unix)])
  | .serviceTier tier => .ok (chatFields [("service_tier", tier)])
  | .metadata entries => .ok (chatFields [("metadata", stringMap entries)])
  | .moderation input output =>
    let sides := ((Value.object []).insertSome "input" input).insertSome "output" output
    .ok (chatFields [("moderation", sides)])
  | .usage u _ => .ok (unnamed (encodeChat u))
  | .finishReason reason _ => .ok (chatFinish (encodeChatFinish reason))
  | .diagnostics _ => .ok (chatFields [])
  | .container _ => .ok (chatFields [])
  | .contextManagement _ => .ok (chatFields [])
  | .stopSequence _ => .ok (chatFields [])
  | .searchEntryPoint _ => .ok (chatFields [])
  | .done => .ok doneFrame
  | .protocol itemType payload =>
    if itemType = "chat_audio_id" then
      .ok (chatDelta (.object [("audio", .object [("id", payload)])]))
    else if itemType = "chat_audio_expires" then
      .ok (chatDelta (.object [("audio", .object [("expires_at", payload)])]))
    else if itemType = "system_fingerprint" ∧ (nonBlankStr? payload).isSome then
      .ok (chatFields [("system_fingerprint", payload.asStr?.getD "")])
    else .error protocolAtRoot
  | .unknown _ _ => .error protocolAtRoot

def outputItemAdded (index : ℕ) (item : Value) : RawSse :=
  named "response.output_item.added"
    (.object [("type", "response.output_item.added"), ("output_index", index), ("item", item)])

def outputItemDone (index : ℕ) (item : Value) : RawSse :=
  named "response.output_item.done"
    (.object [("type", "response.output_item.done"), ("output_index", index), ("item", item)])

def responsesDelta (type : String) (index : ℕ) (delta : String) : RawSse :=
  named type (.object [("type", type), ("output_index", index), ("delta", delta)])

def callDelta (type : String) (index : ℕ) (itemId delta : String) : RawSse :=
  named type (.object [("type", type), ("output_index", index), ("item_id", itemId),
    ("delta", delta)])

def functionCallItem (id name args : String) : Value :=
  .object [("type", "function_call"), ("id", id), ("call_id", id), ("name", name),
    ("arguments", args)]

def customToolCallItem (id name input : String) : Value :=
  .object [("type", "custom_tool_call"), ("id", id), ("call_id", id), ("name", name),
    ("input", input)]

def signatureItem (signature : String) : Value :=
  .object [("type", "reasoning"), ("signature", signature)]

def outputImagePart (mediaType data : String) : Value :=
  .object [("type", "output_image"), ("image_url", dataUrl mediaType data)]

def logprobsDelta (index : ℕ) (merged : List Value) : RawSse :=
  let body := Value.object [("type", "response.output_text.delta"), ("output_index", index),
    ("delta", "")]
  named "response.output_text.delta"
    (if merged.isEmpty then body else body.insert "logprobs" (.array merged))

def annotationAddedFrame (index contentIndex annotationIndex : ℕ) (ann : Value) : RawSse :=
  named "response.output_text.annotation.added"
    (.object [("type", "response.output_text.annotation.added"), ("output_index", index),
      ("content_index", contentIndex), ("annotation_index", annotationIndex),
      ("annotation", ann)])

def audioDeltaFrame (type data : String) : RawSse :=
  named type (.object [("type", type), ("delta", data)])

def responseFrame (event : String) (response : Value) : RawSse :=
  named event (.object [("type", event), ("response", response)])

def responsesEncode : IrStreamEvent → Except MapError RawSse
  | .textDelta text => .ok (responsesDelta "response.output_text.delta" 0 text)
  | .logprobs content refusal => .ok (logprobsDelta 0 (mergedLogprobItems content refusal))
  | .refusalDelta text => .ok (responsesDelta "response.refusal.delta" 0 text)
  | .reasoningDelta text =>
    .ok (outputItemAdded 0 (.object [("type", "reasoning"), ("text", text)]))
  | .reasoningSignature signature => .ok (outputItemAdded 0 (signatureItem signature))
  | .toolCallStart id name _ index => .ok (outputItemAdded index (functionCallItem id name ""))
  | .annotationAdded ann =>
    .ok (annotationAddedFrame 0 0 0 (annotationWithoutSegmentText ann))
  | .audioDelta data => .ok (audioDeltaFrame "response.audio.delta" data)
  | .imageDelta mediaType data => .ok (outputItemAdded 0 (.object [("type", "message"),
      ("role", "assistant"), ("content", .array [outputImagePart mediaType data])]))
  | .audioTranscriptDelta text => .ok (audioDeltaFrame "response.audio.transcript.delta" text)
  | .customToolCallStart id name index => .ok (outputItemAdded index (customToolCallItem id name ""))
  | .customToolCallInputDelta delta index =>
    .ok (responsesDelta "response.custom_tool_call_input.delta" index delta)
  | .toolCallArgDelta delta index =>
    .ok (responsesDelta "response.function_call_arguments.delta" index delta)
  | .toolCallEnd => .ok (outputItemDone 0 (.object [("type", "function_call")]))
  | .usage u _ => .ok (named "response.completed" (encodeResponses u))
  | .finishReason reason _ =>
    let status := if (responsesTerminal reason).1 = "response.completed" ∧ reason ≠ "stop"
      then reason else (responsesTerminal reason).2
    let response := (Value.object [("status", status)]).insertSome "incomplete_details"
      ((incompleteDetailsReason reason).map (fun d => .object [("reason", .string d)]))
    .ok (responseFrame (responsesTerminal reason).1 response)
  | .created unix => .ok (responseFrame "response.created"
      (.object [("created_at", .ofInt unix), ("status", "in_progress")]))
  | .serviceTier tier => .ok (responseFrame "response.created"
      (.object [("service_tier", tier), ("status", "in_progress")]))
  | .metadata entries => .ok (responseFrame "response.created"
      (.object [("metadata", stringMap entries), ("status", "in_progress")]))
  | .moderation input output => .ok (responseFrame "response.completed"
      ((Value.object [("status", "completed")]).insertSome "moderation"
        (responsesModerationValue input output)))
  | .done => .ok (responseFrame "response.completed" (.object [("status", "completed")]))
  | .diagnostics _ => .ok (responseFrame "response.created" (.object [("status", "in_progress")]))
  | .container _ => .ok (responseFrame "response.created" (.object [("status", "in_progress")]))
  | .contextManagement _ =>
    .ok (responseFrame "response.created" (.object [("status", "in_progress")]))
  | .stopSequence _ => .ok (responseFrame "response.created" (.object [("status", "in_progress")]))
  | .searchEntryPoint _ =>
    .ok (responseFrame "response.created" (.object [("status", "in_progress")]))
  | .protocol _ _ => .error protocolAtRoot
  | .unknown _ _ => .error protocolAtRoot

def geminiCandidate (candidate : Value) : Value := .object [("candidates", .array [candidate])]

def geminiPart (part : Value) : Value :=
  geminiCandidate (.object [("content", .object [("role", "model"), ("parts", .array [part])])])

def geminiNoCandidates : Value := .object [("candidates", .array [])]

def inlineDataPart (mimeType data : String) : Value :=
  .object [("inlineData", .object [("mimeType", mimeType), ("data", data)])]

def functionCallPart (id name : String) (args : Value) (thoughtSignature : Option String) : Value :=
  let call := Value.object [("name", name), ("args", args)]
  let call := if id.isEmpty then call else call.insert "id" id
  (Value.object [("functionCall", call)]).insertSome "thoughtSignature"
    ((thoughtSignature.filter (fun s => !s.isEmpty)).map .string)

def geminiFinish (reason : String) (vendor : Option String) : Value :=
  geminiCandidate (.object [("finishReason", finishToken reason vendor)])

def geminiEncode (sj : SerdeJson) : IrStreamEvent → Except MapError RawSse
  | .textDelta text => .ok (unnamed (geminiPart (.object [("text", text)])))
  | .audioTranscriptDelta text => .ok (unnamed (geminiPart (.object [("text", text)])))
  | .refusalDelta text => .ok (unnamed (geminiCandidate (.object [("finishMessage", text)])))
  | .reasoningDelta text =>
    .ok (unnamed (geminiPart (.object [("text", text), ("thought", .bool true)])))
  | .reasoningSignature signature =>
    .ok (unnamed (geminiPart (.object [("thoughtSignature", signature)])))
  | .toolCallStart id name thoughtSignature _ =>
    .ok (unnamed (geminiPart (functionCallPart id name (.object []) thoughtSignature)))
  | .customToolCallStart id name _ =>
    .ok (unnamed (geminiPart (functionCallPart id name (.object []) none)))
  | .annotationAdded ann =>
    .ok (unnamed (geminiCandidate (.object [("groundingMetadata", .object
      [("groundingChunks", .array [ groundingChunkFromAnnotation ann]),
        ("groundingSupports", .array [ groundingSupportFromAnnotation ann 0])])])))
  | .searchEntryPoint rendered =>
    .ok (unnamed (geminiCandidate (.object [("groundingMetadata", .object
      [("searchEntryPoint", .object [("renderedContent", rendered)])])])))
  | .audioDelta data => .ok (unnamed (geminiPart (inlineDataPart "audio/mpeg" data)))
  | .imageDelta mediaType data => .ok (unnamed (geminiPart (inlineDataPart mediaType data)))
  | .logprobs content refusal => .ok (unnamed (geminiCandidate (.object
      [("logprobsResult", logprobsToResult (.array (mergedLogprobItems content refusal)))])))
  | .serviceTier tier =>
    match geminiServiceTier tier with
    | some mapped => .ok (unnamed (.object [("usageMetadata", .object [("serviceTier", mapped)])]))
    | none => .ok (unnamed geminiNoCandidates)
  | .created _ => .ok (unnamed geminiNoCandidates)
  | .metadata _ => .ok (unnamed geminiNoCandidates)
  | .moderation _ _ => .ok (unnamed geminiNoCandidates)
  | .toolCallArgDelta delta _ => .ok (unnamed (geminiPart (.object [("functionCall",
      .object [("name", ""), ("args", (sj.fromStr delta).getD (.object []))])])))
  | .customToolCallInputDelta delta _ => .ok (unnamed (geminiPart (.object [("functionCall",
      .object [("name", ""), ("args", responseCustomToolInput sj delta)])])))
  | .toolCallEnd => .ok (unnamed (geminiCandidate (.object [("content", .object
      [("role", "model"), ("parts", .array [])])])))
  | .usage u _ => .ok (unnamed (encodeGemini u))
  | .finishReason reason vendor => .ok (unnamed (geminiFinish reason vendor))
  | .diagnostics _ => .ok (unnamed geminiNoCandidates)
  | .container _ => .ok (unnamed geminiNoCandidates)
  | .contextManagement _ => .ok (unnamed geminiNoCandidates)
  | .stopSequence _ => .ok (unnamed geminiNoCandidates)
  | .done => .ok doneFrame
  | .protocol _ _ => .error protocolAtRoot
  | .unknown _ _ => .error protocolAtRoot

def converseDelta (delta : Value) : Value :=
  .object [("contentBlockDelta", .object [("delta", delta)])]

def converseText (text : String) : Value := converseDelta (.object [("text", text)])

def converseStart (start : Value) : Value :=
  .object [("contentBlockStart", .object [("start", start)])]

def converseToolStart (id name : String) : Value :=
  converseStart (.object [("toolUse", .object [("toolUseId", id), ("name", name)])])

def converseToolInput (input : String) : Value :=
  converseDelta (.object [("toolUse", .object [("input", input)])])

def converseBlockStop : Value := .object [("contentBlockStop", .object [])]

def converseMessageStop (stopReason : String) : Value :=
  .object [("messageStop", .object [("stopReason", stopReason)])]

def converseMetadata (fields : List (String × Value)) : Value :=
  .object [("metadata", .object fields)]

def converseUnsupportedImage (mediaType : String) : MapError :=
  .invalid ("converse image format is not supported: " ++ mediaType)

/-- The `Debug` text of the event is left out of the last error. -/
def converseEncode (sj : SerdeJson) : IrStreamEvent → Except MapError Value
  | .textDelta text => .ok (converseText text)
  | .refusalDelta text => .ok (converseText text)
  | .audioTranscriptDelta text => .ok (converseText text)
  | .reasoningDelta text =>
    .ok (converseDelta (.object [("reasoningContent", .object [("text", text)])]))
  | .reasoningSignature signature =>
    .ok (converseDelta (.object [("reasoningContent", .object [("signature", signature)])]))
  | .toolCallStart id name _ _ => .ok (converseToolStart id name)
  | .customToolCallStart id name _ => .ok (converseToolStart id name)
  | .annotationAdded ann =>
    .ok (converseDelta (.object [("citation", converseCitationFromAnnotation ann)]))
  | .imageDelta mediaType data =>
    match converseImageFormat mediaType with
    | some format => .ok (converseStart (.object [("image", .object [("format", format),
        ("source", .object [("bytes", data)])])]))
    | none => .error (converseUnsupportedImage mediaType)
  | .audioDelta data => .ok (converseStart (.object [("audio", .object [("format", "mp3"),
      ("source", .object [("bytes", data)])])]))
  | .logprobs _ _ => .ok (converseText "")
  | .created _ => .ok (converseText "")
  | .metadata _ => .ok (converseText "")
  | .moderation _ _ => .ok (converseText "")
  | .searchEntryPoint _ => .ok (.object [])
  | .serviceTier tier => .ok (converseMetadata
      (((converseServiceTier tier).map
        (fun mapped => ("serviceTier", .object [("type", .string mapped)]))).toList))
  | .toolCallArgDelta delta _ => .ok (converseToolInput delta)
  | .customToolCallInputDelta delta _ => .ok (converseToolInput (customInputText sj delta))
  | .toolCallEnd => .ok converseBlockStop
  | .finishReason reason _ => .ok (converseMessageStop (converseFinishReason reason))
  | .usage u _ => .ok (converseMetadata [("usage", encodeConverseUsage u)])
  | .done => .ok (converseMessageStop "end_turn")
  | .diagnostics _ => .error (.invalid "converse stream cannot encode")
  | .container _ => .error (.invalid "converse stream cannot encode")
  | .contextManagement _ => .error (.invalid "converse stream cannot encode")
  | .stopSequence _ => .error (.invalid "converse stream cannot encode")
  | .protocol _ _ => .error (.invalid "converse stream cannot encode")
  | .unknown _ _ => .error (.invalid "converse stream cannot encode")

def messagesStreamEvent (itemType : String) : Bool :=
  ["message_start", "content_block_start", "content_block_delta", "content_block_stop",
    "message_delta", "message_stop", "ping"].contains itemType

def messagesContentBlockType (itemType : String) : Bool :=
  ["redacted_thinking", "server_tool_use", "web_search_tool_result", "web_fetch_tool_result",
    "code_execution_tool_result", "mcp_tool_use", "mcp_tool_result",
    "bash_code_execution_tool_result", "text_editor_code_execution_tool_result", "search_result",
    "document", "container_upload", "tool_result", "thinking", "image"].contains itemType

def responsesOutputItem (itemType : String) (payload : Value) : Bool :=
  if itemType = "chunk" ∨ itemType = "output_image" then false
  else if itemType.toList.contains '.' || messagesStreamEvent itemType then false
  else if messagesContentBlockType itemType then false
  else payload.strAt? "type" = some itemType

def responsesOutputItemFrame (payload : Value) : RawSse :=
  outputItemDone (((payload.get? "output_index").bind Value.asU64?).getD 0)
    (payload.remove "output_index")

def encodeStreamEvent (sj : SerdeJson) (wire : Wire) : IrStreamEvent → Except MapError RawSse
  | .unknown event raw => .ok (encodeNamed event raw)
  | .protocol itemType payload =>
    if wire = .responses ∧ responsesOutputItem itemType payload then
      .ok (responsesOutputItemFrame payload)
    else if wire = .chatCompletions ∧ (itemType = "system_fingerprint" ∨
        itemType = "chat_audio_id" ∨ itemType = "chat_audio_expires") then
      chatEncode (.protocol itemType payload)
    else if wire = .converse ∧ itemType = "converse_frame" then .ok (unnamed payload)
    else if wire = .converse ∧ itemType = "converse_citation" then
      .ok (unnamed (.object [("contentBlockDelta", .object [("contentBlockIndex", 0),
        ("delta", .object [("citation", payload)])])]))
    else .ok (encodeNamed itemType payload)
  | other =>
    match wire with
    | .chatCompletions => chatEncode other
    | .messages => messagesEncode sj other
    | .responses => responsesEncode other
    | .gemini => geminiEncode sj other
    | .converse => (converseEncode sj other).map unnamed

end Wiremux.StreamEventFrames
