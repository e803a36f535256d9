import Wiremux.FrameDecoding

set_option autoImplicit false

/-!
# Decoding Chat chunks

`decode` gives one event, or refuses a chunk that has more; `decodeAll` gives
every event of the first choice.
-/
namespace Wiremux.ChatDecoding
open JsonValue StreamEvents Completion UsageDecoding FrameDecoding

def mapFinish (reason : String) : String :=
  match reason with
  | "eos" => "stop"
  | "function_call" => "tool_calls"
  | "content_filter" => "content_filter"
  | "content-filter" => "content_filter"
  | other => other

/-- The vendor error of a chunk with no visible choice. -/
def rejectBareChatError (value : Value) : Except MapError Unit :=
  if jsonHasCompletion value then .ok ()
  else
    match plainErrorDetail value with
    | some detail => .error (.invalid detail)
    | none => .ok ()

def completionIdEvent (value : Value) : Option IrStreamEvent :=
  (nonBlank (value.strAt? "id")).map fun id => protocol "chat_completion_id" id

def systemFingerprintEvent (value : Value) : Option IrStreamEvent :=
  (nonBlank (value.strAt? "system_fingerprint")).map fun fp => protocol "system_fingerprint" fp

def moderationResultToChat (value : Value) : Value :=
  let kept := ["flagged", "categories", "category_scores",
    "category_applied_input_types"].filterMap fun key => (value.get? key).map fun v => (key, v)
  .object [("type", "moderation_results"), ("model", (value.get? "model").getD ""),
    ("results", .array [.object kept])]

def toChatModerationSide (value : Value) : Value :=
  match value.strAt? "type" with
  | some "error" => value
  | some "moderation_results" => value
  | some "moderation_result" => moderationResultToChat value
  | _ =>
    if (value.get? "results").isSome then value
    else if (value.get? "flagged").isSome || (value.get? "categories").isSome then
      moderationResultToChat value
    else value

def moderationEvent (value : Value) : Option IrStreamEvent :=
  (((value.get? "moderation").orElse fun _ =>
    pointer? value ["response", "moderation"]).filter Value.isObject).bind fun moderation =>
      let input := (moderation.get? "input").map toChatModerationSide
      let output := (moderation.get? "output").map toChatModerationSide
      if input.isNone && output.isNone then none else some (.moderation input output)

/-- An entry of a tree map; a key already there is replaced. -/
def insertEntry (key text : String) : List (String × String) → List (String × String)
  | [] => [(key, text)]
  | (k, t) :: rest =>
    if key = k then (key, text) :: rest
    else if key < k then (key, text) :: (k, t) :: rest
    else (k, t) :: insertEntry key text rest

def stringEntries : Value → List (String × String)
  | .object fields => fields.foldl (fun entries f =>
      match f.2.asStr? with
      | some text => insertEntry f.1 text entries
      | none => entries) []
  | _ => []

def metadataEvent (value : Option Value) : Option IrStreamEvent :=
  value.bind fun v =>
    let entries := stringEntries v
    if entries.isEmpty then none else some (.metadata entries)

def presentLogprobArray (value : Option Value) : Option Value :=
  (value.bind Value.asArray?).bind fun parts => if parts.isEmpty then none else some (.array parts)

def chatLogprobsEvent (choice : Value) : Option IrStreamEvent :=
  (choice.get? "logprobs").bind fun logprobs =>
    let content := presentLogprobArray (logprobs.get? "content")
    let refusal := presentLogprobArray (logprobs.get? "refusal")
    if content.isNone && refusal.isNone then none
    else some (.logprobs (content.getD .null) refusal)

def predictionTokenEvents (usage : Value) : List IrStreamEvent :=
  [("accepted_prediction_tokens", "chat_accepted_prediction_tokens"),
    ("rejected_prediction_tokens", "chat_rejected_prediction_tokens")].filterMap
      fun (key, itemType) =>
        (positive (nestedU32 usage "completion_tokens_details" key)).map fun n =>
          protocol itemType n

def annotationFromChat (ann : Value) : Value :=
  if ann.strAt? "type" = some "url_citation" then
    match ann.get? "url_citation" with
    | none => ann
    | some cit => ["start_index", "end_index", "title", "url"].foldl
        (fun out key => out.insertSome key (cit.get? key))
        (.object [("type", "url_citation")])
  else ann

def audioIdentityEvents (audio : Value) : List IrStreamEvent :=
  ((nonempty (audio.strAt? "id")).map fun id => protocol "chat_audio_id" id).toList ++
    (((audio.get? "expires_at").filter Value.isNumber).map (protocol "chat_audio_expires")).toList

def audioEvents (audio : Value) : List IrStreamEvent :=
  ((nonempty (audio.strAt? "data")).map .audioDelta).toList ++
    ((nonempty (audio.strAt? "transcript")).map .audioTranscriptDelta).toList ++
    audioIdentityEvents audio

def splitOnce (sep : List Char) : List Char → Option (List Char × List Char)
  | [] => if sep.isEmpty then some ([], []) else none
  | c :: rest =>
    if sep.isPrefixOf (c :: rest) then some ([], (c :: rest).drop sep.length)
    else (splitOnce sep rest).map fun halves => (c :: halves.1, halves.2)

def imageOfDataUrl (url : String) : Option IrStreamEvent :=
  if "data:".toList.isPrefixOf url.toList then
    (splitOnce ";base64,".toList (url.toList.drop 5)).bind fun (mediaType, data) =>
      if data.isEmpty || !"image/".toList.isPrefixOf (mediaType.map asciiLowerChar) then none
      else some (.imageDelta (String.ofList mediaType) (String.ofList data))
  else none

def imageEventFromPart (part : Value) : Option IrStreamEvent :=
  if part.strAt? "type" = some "image_url" then
    (textAt part ["image_url", "url"]).bind imageOfDataUrl
  else none

/-- The text of a part without a type, or of type `text`. -/
def partText (part : Value) : Option String :=
  match part.asStr? with
  | some piece => some piece
  | none =>
    if (part.strAt? "type").all (· = "text") then part.strAt? "text" else none

def textEvent (text : String) : List IrStreamEvent := if text.isEmpty then [] else [.textDelta text]

def partEvents (text : String) : List Value → List IrStreamEvent
  | [] => textEvent text
  | part :: rest =>
    match part.asStr? with
    | some piece => partEvents (text ++ piece) rest
    | none =>
      if part.strAt? "type" = some "image_url" then
        textEvent text ++ (imageEventFromPart part).getD (protocol "image_url" part) ::
          partEvents "" rest
      else partEvents (text ++ (partText part).getD "") rest

def contentEvents (content : Value) : List IrStreamEvent :=
  match content with
  | .string text => textEvent text
  | .array parts => partEvents "" parts
  | _ => []

def flattenContent (content : Value) : Option String :=
  match content with
  | .string text => nonempty (some text)
  | .array parts =>
    nonempty (some (parts.foldl (fun out part => out ++ (partText part).getD "") ""))
  | _ => none

def functionBody (call : Value) : Value := (call.get? "function").getD call

def toolCallIndex (call : Value) : ℕ := indexField call "index"

def isCustomToolCall (call : Value) : Bool :=
  match call.strAt? "type" with
  | some ty => ty == "custom"
  | none => (call.get? "custom").isSome && (call.get? "function").isNone

def otherType (call : Value) : Bool := (call.strAt? "type").any fun ty => ty != "function"

variable (sj : SerdeJson)

def orChunk (chunk : Value) (events : List IrStreamEvent) : List IrStreamEvent :=
  if events.isEmpty then [protocol "chunk" chunk] else events

def expandCustomToolCall (call chunk : Value) : Except MapError (List IrStreamEvent) :=
  let custom := (call.get? "custom").getD call
  let id := (call.strAt? "id").getD ""
  let name := (custom.strAt? "name").getD ""
  let index := toolCallIndex call
  (jsonTextField sj custom "input").map fun input =>
    orChunk chunk
      ((if !id.isEmpty || !name.isEmpty then [.customToolCallStart id name index] else []) ++
        (input.map fun delta => .customToolCallInputDelta delta index).toList)

def expandToolCall (call chunk : Value) : Except MapError (List IrStreamEvent) :=
  if isCustomToolCall call then expandCustomToolCall sj call chunk
  else if otherType call then .ok [protocol "chunk" chunk]
  else
    let func := functionBody call
    let id := (call.strAt? "id").getD ""
    let name := (func.strAt? "name").getD ""
    let index := toolCallIndex call
    (jsonTextField sj func "arguments").map fun args =>
      orChunk chunk
        ((if !id.isEmpty || !name.isEmpty then [.toolCallStart id name none index] else []) ++
          (args.map fun delta => .toolCallArgDelta delta index).toList)

def callBundlesArguments (call : Value) : Bool :=
  if otherType call then false
  else
    let func := functionBody call
    ((call.strAt? "id").isSome || (func.strAt? "name").isSome) &&
      (jsonTextField sj func "arguments").toOption.join.isSome

def singularMediaLimit : MapError :=
  .invalid "decode_stream_event cannot represent every event in this Chat chunk; use decode_stream_events"

def singularToolLimit : MapError :=
  .invalid "decode_stream_event cannot represent multiple Chat tool calls or a call that includes arguments; use decode_stream_events"

def decodeToolCall (call chunk : Value) : IrStreamEvent :=
  if otherType call then protocol "chunk" chunk
  else
    let func := functionBody call
    let id := call.strAt? "id"
    let name := func.strAt? "name"
    let index := toolCallIndex call
    if id.isSome || name.isSome then .toolCallStart (id.getD "") (name.getD "") none index
    else
      match (jsonTextField sj func "arguments").toOption.join with
      | some delta => .toolCallArgDelta delta index
      | none => protocol "chunk" chunk

def deltaCalls (choice : Value) : Option (List Value) :=
  (pointer? choice ["delta", "tool_calls"]).bind Value.asArray?

def deltaFunctionCall (choice : Value) : Option Value := objectAt choice ["delta", "function_call"]

/-- Every call has an index under the cap and arguments that are text. -/
def checkCalls : List Value → Except MapError Unit
  | [] => .ok ()
  | call :: rest =>
    match checkIndex call "index" maxToolCallIndex "tool call" with
    | .error e => .error e
    | .ok () =>
      match jsonTextField sj (functionBody call) "arguments" with
      | .error e => .error e
      | .ok _ => checkCalls rest

def reasoningText (delta : Option Value) : Option String :=
  nonempty ((delta.bind fun d =>
    (d.get? "reasoning_content").orElse fun _ => d.get? "reasoning").bind Value.asStr?)

def deltaText (delta : Option Value) (key : String) : Option String :=
  nonempty (delta.bind fun d => d.strAt? key)

def deltaAudio (delta : Option Value) : Option Value :=
  (delta.bind fun d => d.get? "audio").filter Value.isObject

def finishEvent (choice : Value) : Option IrStreamEvent :=
  (nonempty (choice.strAt? "finish_reason")).map fun reason => .finishReason (mapFinish reason) none

def chunkUsage (value : Value) : Option Value := objectAt value ["usage"]

def chunkUsageEvent (value : Value) : Option IrStreamEvent :=
  (chunkUsage value).map fun usage => usageEvent (fromChat usage)

def firstDelta (choice : Value) : Option IrStreamEvent :=
  let delta := choice.get? "delta"
  (((delta.bind fun d => d.get? "content").bind flattenContent).map .textDelta).orElse fun _ =>
    ((deltaText delta "refusal").map .refusalDelta).orElse fun _ =>
      (chatLogprobsEvent choice).orElse fun _ =>
        ((reasoningText delta).map .reasoningDelta).orElse fun _ =>
          (deltaText delta "reasoning_signature").map .reasoningSignature

def deltaMedia (choice : Value) : List IrStreamEvent :=
  let delta := choice.get? "delta"
  ((delta.bind fun d => d.get? "content").map contentEvents).getD [] ++
    ((deltaAudio delta).map audioEvents).getD []

/-- The events after the text-like ones; a chunk with two of them is refused. -/
def decodeRest (choice value : Value) : Except MapError (Option IrStreamEvent) :=
  let media := deltaMedia choice
  let finish := finishEvent choice
  let usage := chunkUsageEvent value
  if 1 < media.length ∨ (media ≠ [] ∧ (finish.isSome = true ∨ usage.isSome = true)) then
    .error singularMediaLimit
  else .ok (media.head?.orElse fun _ => finish.orElse fun _ => usage)

def decodeBody (choice value : Value) : Except MapError (Option IrStreamEvent) :=
  match firstDelta choice with
  | some ev => .ok (some ev)
  | none => decodeRest choice value

def decodeFunctionCall (choice value : Value) : Except MapError (Option IrStreamEvent) :=
  match deltaFunctionCall choice with
  | none => decodeBody choice value
  | some fc =>
    match jsonTextField sj (functionBody fc) "arguments" with
    | .error e => .error e
    | .ok _ =>
      if callBundlesArguments sj fc then .error singularToolLimit
      else .ok (some (decodeToolCall sj fc value))

def decodeChoice (choice value : Value) : Except MapError (Option IrStreamEvent) :=
  match deltaCalls choice with
  | none => decodeFunctionCall sj choice value
  | some calls =>
    match checkCalls sj calls with
    | .error e => .error e
    | .ok () =>
      if 1 < calls.length ∨ (calls.head?.any (callBundlesArguments sj)) = true then
        .error singularToolLimit
      else
        match calls.head? with
        | some call => .ok (some (decodeToolCall sj call value))
        | none => decodeFunctionCall sj choice value

def firstChoice (value : Value) : Option Value :=
  ((value.get? "choices").bind Value.asArray?).bind List.head?

def decode (value : Value) : Except MapError (Option IrStreamEvent) :=
  match rejectBareChatError value with
  | .error e => .error e
  | .ok () =>
    match firstChoice value with
    | some choice => decodeChoice sj choice value
    | none =>
      .ok ((chunkUsageEvent value).orElse fun _ =>
        (moderationEvent value).orElse fun _ => systemFingerprintEvent value)

def expandCalls (chunk : Value) : List Value → Except MapError (List IrStreamEvent)
  | [] => .ok []
  | call :: rest =>
    match checkIndex call "index" maxToolCallIndex "tool call" with
    | .error e => .error e
    | .ok () =>
      match expandToolCall sj call chunk with
      | .error e => .error e
      | .ok events => (expandCalls chunk rest).map fun more => events ++ more

def callEvents (choice value : Value) : Except MapError (List IrStreamEvent) :=
  match deltaCalls choice with
  | some calls => expandCalls sj value calls
  | none =>
    match deltaFunctionCall choice with
    | some fc => expandToolCall sj fc value
    | none => .ok []

def slotEvents (value : Value) : List IrStreamEvent :=
  (completionIdEvent value).toList ++
    ((nonempty (value.strAt? "service_tier")).map .serviceTier).toList ++
    (systemFingerprintEvent value).toList ++
    (((value.get? "created").bind asI64?).map .created).toList ++
    (metadataEvent (value.get? "metadata")).toList ++
    (moderationEvent value).toList

def annotationEvents (delta : Option Value) : List IrStreamEvent :=
  ((items (delta.bind fun d => d.get? "annotations")).filter Value.isObject).map fun ann =>
    .annotationAdded (annotationFromChat ann)

def deltaEvents (choice : Value) : List IrStreamEvent :=
  let delta := choice.get? "delta"
  ((reasoningText delta).map .reasoningDelta).toList ++
    ((deltaText delta "reasoning_signature").map .reasoningSignature).toList ++
    ((delta.bind fun d => d.get? "content").map contentEvents).getD [] ++
    annotationEvents delta ++
    ((deltaText delta "refusal").map .refusalDelta).toList ++
    ((deltaAudio delta).map audioEvents).getD [] ++
    (chatLogprobsEvent choice).toList

def usageEvents (value : Value) : List IrStreamEvent :=
  match chunkUsage value with
  | none => []
  | some usage => usageEvent (fromChat usage) :: predictionTokenEvents usage

def decodeAll (value : Value) : Except MapError (List IrStreamEvent) :=
  match rejectBareChatError value with
  | .error e => .error e
  | .ok () =>
    match firstChoice value with
    | none =>
      .ok (if (chunkUsage value).isSome then (completionIdEvent value).toList ++ usageEvents value
        else (moderationEvent value).toList)
    | some choice =>
      (callEvents sj choice value).map fun calls =>
        slotEvents value ++ calls ++ deltaEvents choice ++ (finishEvent choice).toList ++
          usageEvents value

end Wiremux.ChatDecoding
