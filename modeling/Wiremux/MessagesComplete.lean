import Wiremux.ChatComplete

set_option autoImplicit false

/-!
# The complete Messages body
-/
namespace Wiremux.MessagesComplete
open JsonValue StreamEvents UsageFields StreamEventEncoding StreamEventFrames CompleteTools
open ChatComplete

structure MessagesBody where
  text : String := ""
  refusal : String := ""
  reasoning : String := ""
  reasoningSignature : Option String := none
  finish : Option String := none
  messagesId : Option String := none
  webSearchRequests : Option ℕ := none
  webFetchRequests : Option ℕ := none
  cacheCreation : Option Value := none
  usage : Option (IrUsage × Option String) := none
  serviceTier : Option String := none
  diagnostics : Option Value := none
  container : Option Value := none
  contextManagement : Option Value := none
  stopSequence : Option String := none
  citations : List Value := []
  images : List Value := []
  tools : IndexedTools := {}

def responsesHostedItemType (itemType : String) : Bool :=
  "_call".toList.isSuffixOf itemType.toList || "_call_output".toList.isSuffixOf itemType.toList ||
    ["reasoning", "mcp_list_tools", "mcp_approval_request", "mcp_approval_response",
      "item_reference", "program", "compaction"].contains itemType

def messagesContentBlock (itemType : String) (payload : Value) : Bool :=
  if itemType = "chunk" ∨ itemType = "output_image" then false
  else if responsesHostedItemType itemType then false
  else payload.strAt? "type" = some itemType

def messagesProtocolField (itemType : String) (payload : Value) (b : MessagesBody) :
    MessagesBody :=
  if itemType = "messages_citation" ∧ payload.isObject then
    { b with citations := b.citations ++ [payload] }
  else if messagesContentBlock itemType payload then
    { b with images := partsBefore b.text b.images ++ [payload], text := "" }
  else if itemType = "messages_id" then
    { b with messagesId := (nonBlankStr? payload).or b.messagesId }
  else if itemType = "messages_web_search_requests" then
    { b with webSearchRequests := countU32? payload }
  else if itemType = "messages_web_fetch_requests" then
    { b with webFetchRequests := countU32? payload }
  else if itemType = "messages_cache_creation" ∧ payload.isObject then
    { b with cacheCreation := some payload }
  else b

def messagesBodyEvent (b : MessagesBody) : IrStreamEvent → MessagesBody
  | .textDelta delta => { b with text := b.text ++ delta }
  | .audioTranscriptDelta delta => { b with text := b.text ++ delta }
  | .refusalDelta delta => { b with refusal := b.refusal ++ delta }
  | .annotationAdded ann =>
    { b with citations := b.citations ++ [ messagesCitationFromAnnotation ann] }
  | .imageDelta mediaType data => { b with
      images := partsBefore b.text b.images ++ [imageBlock mediaType data]
      text := "" }
  | .reasoningDelta delta => { b with reasoning := b.reasoning ++ delta }
  | .reasoningSignature signature => { b with reasoningSignature := some signature }
  | .serviceTier tier => { b with serviceTier := some tier }
  | .diagnostics reason => { b with diagnostics := some reason }
  | .container value => { b with container := some value }
  | .contextManagement value => { b with contextManagement := some value }
  | .stopSequence text => { b with stopSequence := some text }
  | .finishReason reason _ => { b with finish := some (encodeStopReason reason) }
  | .usage u geo => { b with usage := some (u, geo) }
  | .toolCallStart id name _ index =>
    { b with tools := indexedToolStart index id name false none b.tools }
  | .customToolCallStart id name index =>
    { b with tools := indexedToolStart index id name true none b.tools }
  | .toolCallArgDelta delta index => { b with tools := indexedToolDelta index delta b.tools }
  | .customToolCallInputDelta delta index =>
    { b with tools := indexedToolDelta index delta b.tools }
  | .protocol itemType payload => messagesProtocolField itemType payload b
  | _ => b

def messagesToolUseValue (sj : SerdeJson) (tool : IndexedTool) : Value :=
  .object [("type", "tool_use"), ("id", tool.id), ("name", tool.name),
    ("input", parsedToolInput sj tool.args tool.custom)]

def isTextBlock (block : Value) : Bool := block.strAt? "type" = some "text"

/-- The first text block takes the citations; without one an empty block is added. -/
def citeFirstText (citations blocks : List Value) : List Value :=
  if citations.isEmpty then blocks
  else
    match blocks.findIdx? isTextBlock with
    | some i => blocks.modify i (fun block => block.insert "citations" (.array citations))
    | none => blocks ++ [.object [("type", "text"), ("text", ""), ("citations", .array citations)]]

def thinkingBlock (b : MessagesBody) : List Value :=
  if b.reasoning.isEmpty && b.reasoningSignature.isNone then []
  else [(Value.object [("type", "thinking"), ("thinking", b.reasoning)]).insertSome "signature"
    (b.reasoningSignature.map .string)]

def messagesContent (sj : SerdeJson) (b : MessagesBody) : List Value :=
  thinkingBlock b ++ citeFirstText b.citations (partsBefore b.text b.images) ++
    (indexedToolFinish b.tools).map (fun p => messagesToolUseValue sj p.2)

def messagesBodyStop (b : MessagesBody) : Option String :=
  if !b.refusal.isEmpty && b.finish.all (fun r => r = "content_filter") then some "refusal"
  else b.finish

def messagesBodyUsage (b : MessagesBody) : Option Value :=
  let usage := b.usage.map (fun u => insertMessagesCacheCreation
    (insertMessagesServerToolCounts (anthropicUsage u.1 u.2) b.webSearchRequests
      b.webFetchRequests) b.cacheCreation)
  match b.serviceTier.bind usageServiceTierToMessages with
  | some mapped => some ((usage.getD (.object [("input_tokens", 0), ("output_tokens", 0)])).insert
      "service_tier" mapped)
  | none => usage

def messagesBodyValue (sj : SerdeJson) (model : String) (b : MessagesBody) : Value :=
  let out := Value.object [("id", b.messagesId.getD "msg_wiremux"), ("type", "message"),
    ("role", "assistant"), ("content", .array (messagesContent sj b))]
  let out := insertText out "model" model
  let out := out.insertSome "stop_reason" ((messagesBodyStop b).map .string)
  let out := if b.refusal.isEmpty then out else out.insert "stop_details"
    (.object [("type", "refusal"), ("explanation", b.refusal)])
  let out := out.insertSome "usage" (messagesBodyUsage b)
  let out := out.insertSome "diagnostics"
    (b.diagnostics.map (fun reason => .object [("cache_miss_reason", reason)]))
  let out := out.insertSome "container" b.container
  let out := out.insertSome "context_management" b.contextManagement
  out.insertSome "stop_sequence" (b.stopSequence.map .string)

def encodeMessagesComplete (sj : SerdeJson) (evs : List IrStreamEvent) (model : String) : Value :=
  messagesBodyValue sj model (evs.foldl messagesBodyEvent {})

end Wiremux.MessagesComplete
