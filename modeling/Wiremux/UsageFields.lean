import Wiremux.StreamEvents

set_option autoImplicit false

/-!
# Usage objects of the five wires

Zero cache and audio counts omit those keys. Chat, Responses and Gemini send
inclusive totals, so the exclusive buckets are added back with saturation.
-/
namespace Wiremux.UsageFields
open JsonValue StreamEvents

def insertPositive (v : Value) (key : String) (count : ℕ) : Value :=
  if 0 < count then v.insert key (.number (.posInt count)) else v

def insertChatPredictionTokens (usage : Value) (accepted rejected : Option ℕ) : Value :=
  if accepted.isNone && rejected.isNone then usage
  else
    let details := ((usage.get? "completion_tokens_details").getD (.object []))
    let details := details.insertSome "accepted_prediction_tokens"
      (accepted.map (fun n => .number (.posInt n)))
    let details := details.insertSome "rejected_prediction_tokens"
      (rejected.map (fun n => .number (.posInt n)))
    usage.insert "completion_tokens_details" details

def insertMessagesServerToolCounts (usage : Value) (search fetch : Option ℕ) : Value :=
  if search.isNone && fetch.isNone then usage
  else
    let tools := (Value.object []).insertSome "web_search_requests"
      (search.map (fun n => .number (.posInt n)))
    let tools := tools.insertSome "web_fetch_requests"
      (fetch.map (fun n => .number (.posInt n)))
    usage.insert "server_tool_use" tools

def insertMessagesCacheCreation (usage : Value) (creation : Option Value) : Value :=
  usage.insertSome "cache_creation" (creation.filter Value.isObject)

def chatUsage (u : IrUsage) : Value :=
  let promptWire := satAdd u.promptTokens u.cacheReadTokens
  let completionWire := satAdd u.completionTokens u.reasoningTokens
  let usage := Value.object [("prompt_tokens", promptWire), ("completion_tokens", completionWire),
    ("total_tokens", satAdd promptWire completionWire)]
  let usage :=
    if 0 < u.cacheReadTokens ∨ 0 < u.cacheWriteTokens ∨ 0 < u.audioTokens then
      let details := insertPositive (.object []) "cached_tokens" u.cacheReadTokens
      let details := insertPositive details "cache_write_tokens" u.cacheWriteTokens
      usage.insert "prompt_tokens_details" (insertPositive details "audio_tokens" u.audioTokens)
    else usage
  if 0 < u.reasoningTokens ∨ 0 < u.completionAudioTokens then
    let details := insertPositive (.object []) "reasoning_tokens" u.reasoningTokens
    usage.insert "completion_tokens_details"
      (insertPositive details "audio_tokens" u.completionAudioTokens)
  else usage

def encodeChat (u : IrUsage) : Value := .object [("choices", .array []), ("usage", chatUsage u)]

def anthropicUsage (u : IrUsage) (inferenceGeo : Option String) : Value :=
  let usage := Value.object [("input_tokens", u.promptTokens),
    ("output_tokens", satAdd u.completionTokens u.reasoningTokens)]
  let usage := insertPositive usage "cache_read_input_tokens" u.cacheReadTokens
  let usage := insertPositive usage "cache_creation_input_tokens" u.cacheWriteTokens
  let usage :=
    if 0 < u.reasoningTokens then
      usage.insert "output_tokens_details" (.object [("thinking_tokens", u.reasoningTokens)])
    else usage
  usage.insertSome "inference_geo" (inferenceGeo.map .string)

def encodeAnthropic (u : IrUsage) (inferenceGeo : Option String) : Value :=
  .object [("type", "message_delta"), ("delta", .object []),
    ("usage", anthropicUsage u inferenceGeo)]

/-- The `usage` object inside the Responses terminal frame. -/
def responsesUsage (u : IrUsage) : Value :=
  let inputTokens := satAdd u.promptTokens u.cacheReadTokens
  let outputTokens := satAdd u.completionTokens u.reasoningTokens
  let usage := Value.object [("input_tokens", inputTokens), ("output_tokens", outputTokens),
    ("total_tokens", satAdd inputTokens outputTokens)]
  let usage :=
    if 0 < u.cacheReadTokens ∨ 0 < u.cacheWriteTokens then
      let details := insertPositive (.object []) "cached_tokens" u.cacheReadTokens
      usage.insert "input_tokens_details"
        (insertPositive details "cache_write_tokens" u.cacheWriteTokens)
    else usage
  if 0 < u.reasoningTokens then
    usage.insert "output_tokens_details" (.object [("reasoning_tokens", u.reasoningTokens)])
  else usage

def encodeResponses (u : IrUsage) : Value :=
  .object [("type", "response.completed"),
    ("response", .object [("status", "completed"), ("usage", responsesUsage u)])]

def audioDetails (count : ℕ) : Value :=
  .array [.object [("modality", "AUDIO"), ("tokenCount", count)]]

def geminiUsage (u : IrUsage) : Value :=
  let promptWire := satAdd u.promptTokens u.cacheReadTokens
  let usage := Value.object [("promptTokenCount", promptWire),
    ("candidatesTokenCount", u.completionTokens),
    ("totalTokenCount", satAdd (satAdd promptWire u.completionTokens) u.reasoningTokens)]
  let usage := insertPositive usage "cachedContentTokenCount" u.cacheReadTokens
  let usage := insertPositive usage "thoughtsTokenCount" u.reasoningTokens
  let usage :=
    if 0 < u.audioTokens then usage.insert "promptTokensDetails" (audioDetails u.audioTokens)
    else usage
  if 0 < u.completionAudioTokens then
    usage.insert "candidatesTokensDetails" (audioDetails u.completionAudioTokens)
  else usage

def encodeGemini (u : IrUsage) : Value := .object [("usageMetadata", geminiUsage u)]

def insertGeminiTrafficType (usage : Value) (kind : Option String) : Value :=
  usage.insertSome "trafficType" ((kind.filter (fun k => !k.isEmpty)).map .string)

def u64Max : ℕ := 18446744073709551615

def insertGeminiToolUsePromptTokens (usage : Value) (count : Option ℕ) : Value :=
  match count.filter (fun n => 0 < n) with
  | none => usage
  | some n =>
    let usage := usage.insert "toolUsePromptTokenCount" (.number (.posInt n))
    match (usage.get? "totalTokenCount").bind Value.asU64? with
    | some total => usage.insert "totalTokenCount" (.number (.posInt (min (total + n) u64Max)))
    | none => usage

def insertGeminiModalityDetails (usage : Value) (field : String) (details : Option Value) : Value :=
  usage.insertSome field (details.filter Value.isNonEmptyArray)

/-- Converse `usage`; the total is a `u64` sum of two `u32` counts. -/
def encodeConverseUsage (u : IrUsage) : Value :=
  let usage := Value.object [("inputTokens", u.promptTokens), ("outputTokens", u.completionTokens)]
  let usage := insertPositive usage "cacheReadInputTokens" u.cacheReadTokens
  let usage := insertPositive usage "cacheWriteInputTokens" u.cacheWriteTokens
  usage.insert "totalTokens" (.number (.posInt (min (u.promptTokens + u.completionTokens) u64Max)))

end Wiremux.UsageFields
