import Wiremux.FrameDecoding

set_option autoImplicit false

/-!
# Decoding Messages frames
-/
namespace Wiremux.MessagesDecoding
open JsonValue StreamEvents Completion UsageDecoding FrameDecoding

def blockIndex (value : Value) : ℕ := indexField value "index"

def stopDetailsExplanation (value : Value) : Option String :=
  nonempty (textAt value ["delta", "stop_details", "explanation"])

def isImageType (mediaType : String) : Bool :=
  "image/".toList.isPrefixOf (asciiLower mediaType).toList

def imageDeltaFromBlock (block : Value) : Option IrStreamEvent :=
  (block.get? "source").bind fun source =>
    if (source.strAt? "type").all (· = "base64") then
      (nonempty (source.strAt? "data")).bind fun data =>
        ((source.strAt? "media_type").filter isImageType).map fun mediaType =>
          .imageDelta mediaType data
    else none

def annotationFromMessagesCitation (citation : Value) : Option Value :=
  let url := match (citation.strAt? "type").getD "" with
    | "web_search_result_location" => citation.strAt? "url"
    | "search_result_location" => citation.strAt? "source"
    | _ => none
  (nonempty url).map fun url =>
    (Value.object [("type", "url_citation"), ("url", url)]).insertSome "title"
      ((nonempty (citation.strAt? "title")).map Value.string)

def mapStopReason (reason : String) : String :=
  match reason with
  | "refusal" => "content_filter"
  | "max_tokens" => "max_tokens"
  | "tool_use" => "tool_calls"
  | "end_turn" => "stop"
  | other => other

def serviceTierFromUsage (usage : Value) : Option String :=
  (usage.strAt? "service_tier").bind fun raw =>
    if asciiLower (trim raw) = "priority" then some "priority"
    else if asciiLower (trim raw) = "standard" then some "default"
    else none

def errorDetail (value : Value) : String :=
  let err := (value.get? "error").getD value
  (err.strAt? "type").getD "error" ++ ": " ++ (err.strAt? "message").getD ""

def decodeBlockStart (name : String) (value : Value) : Option IrStreamEvent :=
  let block := (value.get? "content_block").getD value
  match block.strAt? "type" with
  | some "tool_use" => some (.toolCallStart ((block.strAt? "id").getD "")
      ((block.strAt? "name").getD "") none (blockIndex value))
  | some "image" => some ((imageDeltaFromBlock block).getD (protocol name value))
  | some "redacted_thinking" =>
    (nonempty (block.strAt? "data")).map fun _ => protocol name value
  | _ => some (protocol name value)

def decodeBlockDelta (name : String) (value : Value) : Option IrStreamEvent :=
  let delta := (value.get? "delta").getD value
  match delta.strAt? "type" with
  | some "text_delta" => (nonempty (delta.strAt? "text")).map .textDelta
  | some "thinking_delta" => (nonempty (delta.strAt? "thinking")).map .reasoningDelta
  | some "signature_delta" => (nonempty (delta.strAt? "signature")).map .reasoningSignature
  | some "input_json_delta" =>
    some (.toolCallArgDelta ((delta.strAt? "partial_json").getD "") (blockIndex value))
  | some "citations_delta" =>
    let citation := (delta.get? "citation").getD delta
    match annotationFromMessagesCitation citation with
    | some annotation => some (.annotationAdded annotation)
    -- A document citation has no address; its frame is kept whole.
    | none => (citation.strAt? "type").map fun _ => protocol name value
  | _ => some (protocol name value)

/-- The stop reason wins over the explanation, that over the usage. -/
def decodeMessageDelta (name : String) (value : Value) : IrStreamEvent :=
  match textAt value ["delta", "stop_reason"] with
  | some reason => .finishReason (mapStopReason reason) none
  | none =>
    match stopDetailsExplanation value with
    | some text => .refusalDelta text
    | none =>
      match objectAt value ["usage"] with
      | some usage => usageEvent (fromAnthropic usage)
      | none => protocol name value

def checkBlockIndex (value : Value) : Except MapError Unit :=
  checkIndex value "index" maxContentBlockIndex "content block"

def decode (name : String) (value : Value) : Except MapError (Option IrStreamEvent) :=
  match name with
  | "ping" => .ok none
  | "error" => .error (.invalid (errorDetail value))
  | "message_stop" => .ok (some .done)
  | "message_start" =>
    match pointer? value ["message", "usage"] with
    | some usage => .ok (some (usageEvent (fromAnthropic usage)))
    | none => .ok (some (protocol name value))
  | "content_block_start" => (checkBlockIndex value).map fun _ => decodeBlockStart name value
  | "content_block_delta" => (checkBlockIndex value).map fun _ => decodeBlockDelta name value
  | "content_block_stop" => (checkBlockIndex value).map fun _ => some (protocol name value)
  | "message_delta" => .ok (some (decodeMessageDelta name value))
  | other => .ok (some (protocol other value))

def isUsage : IrStreamEvent → Bool
  | .usage .. => true
  | _ => false

def isFinish : IrStreamEvent → Bool
  | .finishReason .. => true
  | _ => false

def isRefusal : IrStreamEvent → Bool
  | .refusalDelta _ => true
  | _ => false

def countEvent (itemType : String) (count : Option ℕ) : Option IrStreamEvent :=
  (count.filter fun n => 0 < n).map fun n => protocol itemType n

def messagesWebSearchEvents (usage : Value) : List IrStreamEvent :=
  [("web_search_requests", "messages_web_search_requests"),
    ("web_fetch_requests", "messages_web_fetch_requests")].filterMap fun (key, itemType) =>
      countEvent itemType (nestedU32 usage "server_tool_use" key)

def keptCreation (creation : Value) : List (String × Value) :=
  ["ephemeral_5m_input_tokens", "ephemeral_1h_input_tokens"].filterMap fun key =>
    (((creation.get? key).bind Value.asU64?).filter fun n => 0 < n).map fun n => (key, (n : Value))

def messagesCacheCreationEvents (usage : Value) : List IrStreamEvent :=
  match (usage.get? "cache_creation").filter Value.isObject with
  | none => []
  | some creation =>
    let kept := keptCreation creation
    if kept.isEmpty then [] else [protocol "messages_cache_creation" (.object kept)]

def frameUsage (name : String) (value : Value) : Option Value :=
  match name with
  | "message_start" => objectAt value ["message", "usage"]
  | "message_delta" => objectAt value ["usage"]
  | _ => none

def frameContainer (name : String) (value : Value) : Option Value :=
  match name with
  | "message_start" => objectAt value ["message", "container"]
  | "message_delta" => objectAt value ["container"]
  | _ => none

def frameEvents (name : String) (value : Value) (first : IrStreamEvent) : List IrStreamEvent :=
  let usage := frameUsage name value
  let isDelta := name == "message_delta"
  let settled := isUsage first || isFinish first
  let id := if name == "message_start" && isUsage first then
      (nonBlank (textAt value ["message", "id"])).map fun id => protocol "messages_id" id
    else none
  let tier := (usage.bind serviceTierFromUsage).map .serviceTier
  let refusal := if isDelta && !isRefusal first then
      (stopDetailsExplanation value).map .refusalDelta
    else none
  let container := if settled then (frameContainer name value).map .container else none
  let stopSequence := if isDelta && isFinish first then
      (nonBlank (textAt value ["delta", "stop_sequence"])).map .stopSequence
    else none
  let managed := if isDelta && settled then
      (objectAt value ["context_management"]).map .contextManagement
    else none
  let missReason := if isDelta && settled then
      (objectAt value ["diagnostics", "cache_miss_reason"]).map .diagnostics
    else none
  let counts := match usage with
    | some usage => messagesWebSearchEvents usage ++ messagesCacheCreationEvents usage
    | none => []
  let deltaUsage := if isDelta && isFinish first then
      usage.map fun usage => usageEvent (fromAnthropic usage)
    else none
  id.toList ++ tier.toList ++ refusal.toList ++ container.toList ++ stopSequence.toList ++
    managed.toList ++ missReason.toList ++ [first] ++ counts ++ deltaUsage.toList

end Wiremux.MessagesDecoding
