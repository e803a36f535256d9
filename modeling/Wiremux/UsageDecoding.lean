import Wiremux.UsageFields

set_option autoImplicit false

/-!
# Reading usage objects

Chat and Responses count the cached tokens inside the prompt and the reasoning
tokens inside the completion, Gemini only the cached ones, Messages only the
reasoning ones, Converse neither.
-/
namespace Wiremux.UsageDecoding
open JsonValue StreamEvents UsageFields

def u32Field (value : Value) (key : String) : Option ℕ :=
  ((value.get? key).bind Value.asU64?).bind toU32?

def nestedU32 (value : Value) (object key : String) : Option ℕ :=
  (value.get? object).bind fun v => u32Field v key

def positive (count : Option ℕ) : Option ℕ := count.filter fun n => 0 < n

/-- The cached tokens of a Chat usage, under the first of three names that has any. -/
def chatCacheRead (usage : Value) : ℕ :=
  ((positive (nestedU32 usage "prompt_tokens_details" "cached_tokens")).orElse fun _ =>
    (positive (u32Field usage "cached_tokens")).orElse fun _ =>
      u32Field usage "prompt_cache_hit_tokens").getD 0

def fromChat (usage : Value) : IrUsage × Option String :=
  let cacheRead := chatCacheRead usage
  let reasoning := (nestedU32 usage "completion_tokens_details" "reasoning_tokens").getD 0
  ({ promptTokens := (u32Field usage "prompt_tokens").getD 0 - cacheRead
     completionTokens := (u32Field usage "completion_tokens").getD 0 - reasoning
     cacheReadTokens := cacheRead
     cacheWriteTokens := (nestedU32 usage "prompt_tokens_details" "cache_write_tokens").getD 0
     reasoningTokens := reasoning
     audioTokens := (nestedU32 usage "prompt_tokens_details" "audio_tokens").getD 0
     completionAudioTokens :=
       (nestedU32 usage "completion_tokens_details" "audio_tokens").getD 0 }, none)

def fromAnthropic (usage : Value) : IrUsage × Option String :=
  let reasoning := (nestedU32 usage "output_tokens_details" "thinking_tokens").getD 0
  ({ promptTokens := (u32Field usage "input_tokens").getD 0
     completionTokens := (u32Field usage "output_tokens").getD 0 - reasoning
     cacheReadTokens := (u32Field usage "cache_read_input_tokens").getD 0
     cacheWriteTokens := (u32Field usage "cache_creation_input_tokens").getD 0
     reasoningTokens := reasoning
     audioTokens := 0
     completionAudioTokens := 0 },
    ((usage.strAt? "inference_geo").map trim).filter fun geo => !geo.isEmpty)

def fromResponses (usage : Value) : IrUsage × Option String :=
  let cacheRead := (nestedU32 usage "input_tokens_details" "cached_tokens").getD 0
  let reasoning := (nestedU32 usage "output_tokens_details" "reasoning_tokens").getD 0
  ({ promptTokens := (u32Field usage "input_tokens").getD 0 - cacheRead
     completionTokens := (u32Field usage "output_tokens").getD 0 - reasoning
     cacheReadTokens := cacheRead
     cacheWriteTokens := (nestedU32 usage "input_tokens_details" "cache_write_tokens").getD 0
     reasoningTokens := reasoning
     audioTokens := 0
     completionAudioTokens := 0 }, none)

def audioCount (item : Value) : Option ℕ :=
  if asciiLower ((item.strAt? "modality").getD "") = "audio" then
    (u32Field item "tokenCount").orElse fun _ => u32Field item "token_count"
  else none

def geminiAudioTokens (usage : Value) (camel snake : String) : ℕ :=
  match ((usage.get? camel).orElse fun _ => usage.get? snake).bind Value.asArray? with
  | none => 0
  | some details => details.foldl (fun total item => satAdd total ((audioCount item).getD 0)) 0

/-- A count under its camel-case name, or else under its snake-case name. -/
def eitherField (usage : Value) (camel snake : String) : ℕ :=
  ((u32Field usage camel).orElse fun _ => u32Field usage snake).getD 0

def fromGemini (usage : Value) : IrUsage × Option String :=
  let cacheRead := eitherField usage "cachedContentTokenCount" "cached_content_token_count"
  ({ promptTokens := eitherField usage "promptTokenCount" "prompt_token_count" - cacheRead
     completionTokens := eitherField usage "candidatesTokenCount" "candidates_token_count"
     cacheReadTokens := cacheRead
     cacheWriteTokens := 0
     reasoningTokens := eitherField usage "thoughtsTokenCount" "thoughts_token_count"
     audioTokens := geminiAudioTokens usage "promptTokensDetails" "prompt_tokens_details"
     completionAudioTokens :=
       geminiAudioTokens usage "candidatesTokensDetails" "candidates_tokens_details" }, none)

def usageU32 (usage : Value) (key : String) : ℕ :=
  (((usage.get? key).bind Value.asU64?).getD 0) % (u32Max + 1)

def usageFromConverse (usage : Value) : IrUsage × Option String :=
  ({ promptTokens := usageU32 usage "inputTokens"
     completionTokens := usageU32 usage "outputTokens"
     cacheReadTokens := usageU32 usage "cacheReadInputTokens"
     cacheWriteTokens := usageU32 usage "cacheWriteInputTokens"
     reasoningTokens := 0
     audioTokens := 0
     completionAudioTokens := 0 }, none)

/-- The usage object the wire's encoder writes. -/
def usageObject (wire : Wire) (u : IrUsage) (inferenceGeo : Option String) : Value :=
  match wire with
  | .chatCompletions => chatUsage u
  | .messages => anthropicUsage u inferenceGeo
  | .responses => responsesUsage u
  | .gemini => geminiUsage u
  | .converse => encodeConverseUsage u

def decodeUsage (wire : Wire) (usage : Value) : IrUsage × Option String :=
  match wire with
  | .chatCompletions => fromChat usage
  | .messages => fromAnthropic usage
  | .responses => fromResponses usage
  | .gemini => fromGemini usage
  | .converse => usageFromConverse usage

variable {v : Value} {key other : String} {n : ℕ}

@[simp] theorem isObject_insertPositive (v : Value) (key : String) (n : ℕ) :
    (insertPositive v key n).isObject = v.isObject := by
  unfold insertPositive
  split
  · exact Value.isObject_insert v key _
  · rfl

theorem get?_insertPositive_of_ne (v : Value) (n : ℕ) (h : other ≠ key) :
    (insertPositive v key n).get? other = v.get? other := by
  unfold insertPositive
  split
  · exact Value.get?_insert_of_ne v _ h
  · rfl

theorem u32Field_insertPositive_of_ne (v : Value) (n : ℕ) (h : other ≠ key) :
    u32Field (insertPositive v key n) other = u32Field v other := by
  rw [u32Field, u32Field, get?_insertPositive_of_ne v n h]

theorem toU32?_of_le (h : n ≤ u32Max) : toU32? n = some n := if_pos h

theorem u32Field_insertPositive_self (hobj : v.isObject = true) (habsent : v.get? key = none)
    (hn : n ≤ u32Max) : (u32Field (insertPositive v key n) key).getD 0 = n := by
  unfold insertPositive u32Field
  split
  · rw [Value.get?_insert_self key _ hobj]
    simp [Value.asU64?, toU32?_of_le hn]
  · rename_i hzero
    rw [habsent]
    simpa using (Nat.eq_zero_of_not_pos hzero).symm

end Wiremux.UsageDecoding
