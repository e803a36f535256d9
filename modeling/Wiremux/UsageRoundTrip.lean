import Mathlib
import Wiremux.UsageDecoding

set_option autoImplicit false

/-!
# Usage survives a wire, bucket by bucket

A wire gives back every bucket it has a field for. Gemini has none for cache
creation, Converse none for reasoning.
-/
namespace Wiremux.UsageRoundTrip
open JsonValue StreamEvents UsageFields UsageDecoding

/-- The sums a wire adds up fit in a `u32`. -/
structure Fits (u : IrUsage) : Prop where
  input : u.promptTokens + u.cacheReadTokens + u.cacheWriteTokens ≤ u32Max
  output : u.completionTokens + u.reasoningTokens ≤ u32Max
  audio : u.audioTokens ≤ u32Max
  completionAudio : u.completionAudioTokens ≤ u32Max

def inputTotal (u : IrUsage) : ℕ := u.promptTokens + u.cacheReadTokens + u.cacheWriteTokens

def outputTotal (u : IrUsage) : ℕ := u.completionTokens + u.reasoningTokens

/-- What `wire` gives back of `u` is `d`. -/
structure GivenBack (wire : Wire) (u d : IrUsage) : Prop where
  prompt : d.promptTokens = u.promptTokens
  cacheRead : d.cacheReadTokens = u.cacheReadTokens
  completion : d.completionTokens = u.completionTokens
  cacheWrite : wire ≠ .gemini → d.cacheWriteTokens = u.cacheWriteTokens
  input : wire ≠ .gemini → inputTotal d = inputTotal u
  reasoning : wire ≠ .converse → d.reasoningTokens = u.reasoningTokens
  output : wire ≠ .converse → outputTotal d = outputTotal u
  audio : wire = .chatCompletions ∨ wire = .gemini →
    d.audioTokens = u.audioTokens ∧ d.completionAudioTokens = u.completionAudioTokens

variable {v : Value} {key : String} {n : ℕ}

theorem satAdd_of_le {a b : ℕ} (h : a + b ≤ u32Max) : satAdd a b = a + b := min_eq_left h

theorem u32Field_of_get? (h : v.get? key = some (Value.number (.posInt n))) (hn : n ≤ u32Max) :
    u32Field v key = some n := by
  simp [u32Field, h, Value.asU64?, toU32?_of_le hn]

theorem u32Field_of_none (h : v.get? key = none) : u32Field v key = none := by
  simp [u32Field, h]

theorem nestedU32_getD (v : Value) (object key : String) :
    (nestedU32 v object key).getD 0 = (u32Field ((v.get? object).getD (.object [])) key).getD 0 := by
  unfold nestedU32
  cases v.get? object with
  | none => rfl
  | some d => rfl

theorem positive_getD (count : Option ℕ) (next : Unit → Option ℕ) (h : (next ()).getD 0 = 0) :
    ((positive count).orElse next).getD 0 = count.getD 0 := by
  cases count with
  | none => simpa [positive] using h
  | some n =>
    by_cases hn : 0 < n
    · simp [positive, Option.filter, hn]
    · obtain rfl : n = 0 := Nat.eq_zero_of_not_pos hn
      simpa [positive, Option.filter] using h

theorem geminiAudioTokens_details {usage : Value} {camel snake : String} (hn : n ≤ u32Max)
    (hcamel : usage.get? camel = if 0 < n then some (audioDetails n) else none)
    (hsnake : usage.get? snake = none) : geminiAudioTokens usage camel snake = n := by
  unfold geminiAudioTokens
  rw [hcamel, hsnake]
  split_ifs with hpos
  · have hrow : audioCount (.object [("modality", "AUDIO"), ("tokenCount", (n : Value))]) = some n := by
      have hmodality : (Value.object [("modality", "AUDIO"), ("tokenCount", (n : Value))]).strAt?
          "modality" = some "AUDIO" := rfl
      rw [audioCount, hmodality, if_pos (by decide), u32Field_of_get? rfl hn]
      rfl
    simp [audioDetails, Value.asArray?, hrow, satAdd_of_le, hn]
  · exact (Nat.eq_zero_of_not_pos hpos).symm

variable (u : IrUsage)

theorem chatUsage_fields :
    (chatUsage u).get? "prompt_tokens" = some (satAdd u.promptTokens u.cacheReadTokens) ∧
    (chatUsage u).get? "completion_tokens" = some (satAdd u.completionTokens u.reasoningTokens) ∧
    (chatUsage u).get? "cached_tokens" = none ∧
    (chatUsage u).get? "prompt_cache_hit_tokens" = none ∧
    ((chatUsage u).get? "prompt_tokens_details").getD (.object []) =
      insertPositive (insertPositive (insertPositive (.object []) "cached_tokens" u.cacheReadTokens)
        "cache_write_tokens" u.cacheWriteTokens) "audio_tokens" u.audioTokens ∧
    ((chatUsage u).get? "completion_tokens_details").getD (.object []) =
      insertPositive (insertPositive (.object []) "reasoning_tokens" u.reasoningTokens)
        "audio_tokens" u.completionAudioTokens := by
  unfold chatUsage
  simp only
  split <;> split <;>
    simp_all [Value.get?, Value.insert, Value.insertField, List.lookup_cons, insertPositive]

theorem responsesUsage_fields :
    (responsesUsage u).get? "input_tokens" = some (satAdd u.promptTokens u.cacheReadTokens) ∧
    (responsesUsage u).get? "output_tokens" = some (satAdd u.completionTokens u.reasoningTokens) ∧
    ((responsesUsage u).get? "input_tokens_details").getD (.object []) =
      insertPositive (insertPositive (.object []) "cached_tokens" u.cacheReadTokens)
        "cache_write_tokens" u.cacheWriteTokens ∧
    ((responsesUsage u).get? "output_tokens_details").getD (.object []) =
      insertPositive (.object []) "reasoning_tokens" u.reasoningTokens := by
  unfold responsesUsage
  simp only
  split <;> split <;>
    simp_all [Value.get?, Value.insert, Value.insertField, List.lookup_cons, insertPositive]

def anthropicCounts : Value :=
  insertPositive (insertPositive (.object [("input_tokens", (u.promptTokens : Value)),
    ("output_tokens", satAdd u.completionTokens u.reasoningTokens)])
    "cache_read_input_tokens" u.cacheReadTokens) "cache_creation_input_tokens" u.cacheWriteTokens

theorem anthropicUsage_count (geo : Option String) {key : String}
    (hdetails : key ≠ "output_tokens_details") (hgeo : key ≠ "inference_geo") :
    u32Field (anthropicUsage u geo) key = u32Field (anthropicCounts u) key := by
  unfold u32Field anthropicUsage
  simp only
  rw [Value.get?_insertSome_of_ne _ _ hgeo]
  split
  · rw [Value.get?_insert_of_ne _ _ hdetails]
    rfl
  · rfl

theorem anthropicUsage_details (geo : Option String) :
    ((anthropicUsage u geo).get? "output_tokens_details").getD (.object []) =
      insertPositive (.object []) "thinking_tokens" u.reasoningTokens := by
  unfold anthropicUsage
  simp only
  rw [Value.get?_insertSome_of_ne _ _ (by decide)]
  split
  · rename_i hpos
    rw [Value.get?_insert_self _ _ (by simp), insertPositive, if_pos hpos]
    rfl
  · rename_i hzero
    rw [get?_insertPositive_of_ne _ _ (by decide), get?_insertPositive_of_ne _ _ (by decide),
      insertPositive, if_neg hzero]
    rfl

def geminiCounts : Value :=
  insertPositive (insertPositive (.object [
    ("promptTokenCount", (satAdd u.promptTokens u.cacheReadTokens : Value)),
    ("candidatesTokenCount", u.completionTokens),
    ("totalTokenCount", satAdd (satAdd (satAdd u.promptTokens u.cacheReadTokens)
      u.completionTokens) u.reasoningTokens)])
    "cachedContentTokenCount" u.cacheReadTokens) "thoughtsTokenCount" u.reasoningTokens

theorem geminiUsage_count {key : String} (hprompt : key ≠ "promptTokensDetails")
    (hcandidates : key ≠ "candidatesTokensDetails") :
    (geminiUsage u).get? key = (geminiCounts u).get? key := by
  unfold geminiUsage
  simp only
  split <;> split
  · rw [Value.get?_insert_of_ne _ _ hcandidates, Value.get?_insert_of_ne _ _ hprompt]
    rfl
  · rw [Value.get?_insert_of_ne _ _ hcandidates]
    rfl
  · rw [Value.get?_insert_of_ne _ _ hprompt]
    rfl
  · rfl

theorem geminiUsage_details :
    (geminiUsage u).get? "promptTokensDetails" =
      (if 0 < u.audioTokens then some (audioDetails u.audioTokens) else none) ∧
    (geminiUsage u).get? "candidatesTokensDetails" =
      (if 0 < u.completionAudioTokens then some (audioDetails u.completionAudioTokens)
        else none) := by
  have hprompt : (geminiCounts u).get? "promptTokensDetails" = none := by
    rw [geminiCounts, get?_insertPositive_of_ne _ _ (by decide),
      get?_insertPositive_of_ne _ _ (by decide)]
    rfl
  have hcandidates : (geminiCounts u).get? "candidatesTokensDetails" = none := by
    rw [geminiCounts, get?_insertPositive_of_ne _ _ (by decide),
      get?_insertPositive_of_ne _ _ (by decide)]
    rfl
  have hobj : (geminiCounts u).isObject = true := by simp [geminiCounts]
  have hform : geminiUsage u =
      (let usage := if 0 < u.audioTokens then
          (geminiCounts u).insert "promptTokensDetails" (audioDetails u.audioTokens)
        else geminiCounts u
      if 0 < u.completionAudioTokens then
        usage.insert "candidatesTokensDetails" (audioDetails u.completionAudioTokens)
      else usage) := rfl
  rw [hform]
  simp only
  split <;> split <;>
    simp [Value.get?_insert_of_ne, Value.get?_insert_self, hobj, hprompt, hcandidates]

variable {u}

theorem GivenBack.of_buckets {wire : Wire} {d : IrUsage} (hprompt : d.promptTokens = u.promptTokens)
    (hread : d.cacheReadTokens = u.cacheReadTokens)
    (hcompletion : d.completionTokens = u.completionTokens)
    (hwrite : wire ≠ .gemini → d.cacheWriteTokens = u.cacheWriteTokens)
    (hreasoning : wire ≠ .converse → d.reasoningTokens = u.reasoningTokens)
    (haudio : wire = .chatCompletions ∨ wire = .gemini →
      d.audioTokens = u.audioTokens ∧ d.completionAudioTokens = u.completionAudioTokens) :
    GivenBack wire u d where
  prompt := hprompt
  cacheRead := hread
  completion := hcompletion
  cacheWrite := hwrite
  input := fun hwire => by rw [inputTotal, inputTotal, hprompt, hread, hwrite hwire]
  reasoning := hreasoning
  output := fun hwire => by rw [outputTotal, outputTotal, hcompletion, hreasoning hwire]
  audio := haudio

theorem chat_givenBack (h : Fits u) :
    GivenBack .chatCompletions u (fromChat (chatUsage u)).1 := by
  obtain ⟨hprompt, hcompletion, hcached, hhit, hpromptDetails, hcompletionDetails⟩ :=
    chatUsage_fields u
  obtain ⟨hin, hout, haudio, hcompletionAudio⟩ := h
  have hread : (nestedU32 (chatUsage u) "prompt_tokens_details" "cached_tokens").getD 0 =
      u.cacheReadTokens := by
    rw [nestedU32_getD, hpromptDetails, u32Field_insertPositive_of_ne _ _ (by decide),
      u32Field_insertPositive_of_ne _ _ (by decide), u32Field_insertPositive_self rfl rfl (by omega)]
  have hwrite : (nestedU32 (chatUsage u) "prompt_tokens_details" "cache_write_tokens").getD 0 =
      u.cacheWriteTokens := by
    rw [nestedU32_getD, hpromptDetails, u32Field_insertPositive_of_ne _ _ (by decide)]
    exact u32Field_insertPositive_self (by simp)
      (by rw [get?_insertPositive_of_ne _ _ (by decide)]; rfl) (by omega)
  have hpromptAudio : (nestedU32 (chatUsage u) "prompt_tokens_details" "audio_tokens").getD 0 =
      u.audioTokens := by
    rw [nestedU32_getD, hpromptDetails]
    exact u32Field_insertPositive_self (by simp)
      (by rw [get?_insertPositive_of_ne _ _ (by decide), get?_insertPositive_of_ne _ _ (by decide)]
          rfl) haudio
  have hreasoning : (nestedU32 (chatUsage u) "completion_tokens_details" "reasoning_tokens").getD 0 =
      u.reasoningTokens := by
    rw [nestedU32_getD, hcompletionDetails, u32Field_insertPositive_of_ne _ _ (by decide),
      u32Field_insertPositive_self rfl rfl (by omega)]
  have hcacheRead : chatCacheRead (chatUsage u) = u.cacheReadTokens := by
    rw [chatCacheRead, positive_getD, hread]
    rw [u32Field_of_none hcached, u32Field_of_none hhit]
    rfl
  have hprompts : (u32Field (chatUsage u) "prompt_tokens").getD 0 =
      u.promptTokens + u.cacheReadTokens := by
    rw [u32Field_of_get? hprompt (min_le_right _ _), satAdd_of_le (by omega)]
    rfl
  have hcompletions : (u32Field (chatUsage u) "completion_tokens").getD 0 =
      u.completionTokens + u.reasoningTokens := by
    rw [u32Field_of_get? hcompletion (min_le_right _ _), satAdd_of_le hout]
    rfl
  refine .of_buckets ?_ hcacheRead ?_ (fun _ => hwrite) (fun _ => hreasoning)
    fun _ => ⟨hpromptAudio, ?_⟩
  · simp only [fromChat, hprompts, hcacheRead, Nat.add_sub_cancel]
  · simp only [fromChat, hcompletions, hreasoning, Nat.add_sub_cancel]
  · simp only [fromChat, nestedU32_getD, hcompletionDetails]
    exact u32Field_insertPositive_self (by simp)
      (by rw [get?_insertPositive_of_ne _ _ (by decide)]; rfl) hcompletionAudio

theorem messages_givenBack (h : Fits u) (geo : Option String) :
    GivenBack .messages u (fromAnthropic (anthropicUsage u geo)).1 := by
  obtain ⟨hin, hout, -, -⟩ := h
  have hreasoning : (nestedU32 (anthropicUsage u geo) "output_tokens_details"
      "thinking_tokens").getD 0 = u.reasoningTokens := by
    rw [nestedU32_getD, anthropicUsage_details, u32Field_insertPositive_self rfl rfl (by omega)]
  have hbase : ∀ key, key ≠ "cache_read_input_tokens" → key ≠ "cache_creation_input_tokens" →
      key ≠ "output_tokens_details" → key ≠ "inference_geo" →
      u32Field (anthropicUsage u geo) key =
        u32Field (.object [("input_tokens", (u.promptTokens : Value)),
          ("output_tokens", satAdd u.completionTokens u.reasoningTokens)]) key := by
    intro key hread hwrite hdetails hgeo
    rw [anthropicUsage_count u geo hdetails hgeo, anthropicCounts,
      u32Field_insertPositive_of_ne _ _ hwrite, u32Field_insertPositive_of_ne _ _ hread]
  refine .of_buckets ?_ ?_ ?_ (fun _ => ?_) (fun _ => hreasoning) (by simp)
  · simp only [fromAnthropic]
    rw [hbase _ (by decide) (by decide) (by decide) (by decide), u32Field_of_get? rfl (by omega)]
    rfl
  · simp only [fromAnthropic]
    rw [anthropicUsage_count u geo (by decide) (by decide), anthropicCounts,
      u32Field_insertPositive_of_ne _ _ (by decide),
      u32Field_insertPositive_self rfl rfl (by omega)]
  · simp only [fromAnthropic, hreasoning]
    rw [hbase _ (by decide) (by decide) (by decide) (by decide),
      u32Field_of_get? rfl (min_le_right _ _), min_eq_left hout]
    exact Nat.add_sub_cancel _ _
  · simp only [fromAnthropic]
    rw [anthropicUsage_count u geo (by decide) (by decide), anthropicCounts,
      u32Field_insertPositive_self (by simp) _ (by omega)]
    rw [get?_insertPositive_of_ne _ _ (by decide)]
    rfl

theorem responses_givenBack (h : Fits u) :
    GivenBack .responses u (fromResponses (responsesUsage u)).1 := by
  obtain ⟨hinput, houtput, hinputDetails, houtputDetails⟩ := responsesUsage_fields u
  obtain ⟨hin, hout, -, -⟩ := h
  have hread : (nestedU32 (responsesUsage u) "input_tokens_details" "cached_tokens").getD 0 =
      u.cacheReadTokens := by
    rw [nestedU32_getD, hinputDetails, u32Field_insertPositive_of_ne _ _ (by decide),
      u32Field_insertPositive_self rfl rfl (by omega)]
  have hreasoning : (nestedU32 (responsesUsage u) "output_tokens_details"
      "reasoning_tokens").getD 0 = u.reasoningTokens := by
    rw [nestedU32_getD, houtputDetails, u32Field_insertPositive_self rfl rfl (by omega)]
  refine .of_buckets ?_ hread ?_ (fun _ => ?_) (fun _ => hreasoning) (by simp)
  · simp only [fromResponses, hread]
    rw [u32Field_of_get? hinput (min_le_right _ _), satAdd_of_le (by omega)]
    exact Nat.add_sub_cancel _ _
  · simp only [fromResponses, hreasoning]
    rw [u32Field_of_get? houtput (min_le_right _ _), satAdd_of_le hout]
    exact Nat.add_sub_cancel _ _
  · simp only [fromResponses, nestedU32_getD, hinputDetails]
    exact u32Field_insertPositive_self (by simp)
      (by rw [get?_insertPositive_of_ne _ _ (by decide)]; rfl) (by omega)

theorem eitherField_eq {usage : Value} {camel snake : String} (h : u32Field usage snake = none) :
    eitherField usage camel snake = (u32Field usage camel).getD 0 := by
  unfold eitherField
  rw [h]
  cases u32Field usage camel <;> rfl

theorem geminiUsage_u32Field {key : String} (hprompt : key ≠ "promptTokensDetails")
    (hcandidates : key ≠ "candidatesTokensDetails") :
    u32Field (geminiUsage u) key = u32Field (geminiCounts u) key := by
  rw [u32Field, u32Field, geminiUsage_count u hprompt hcandidates]

def geminiKeys : List String :=
  ["promptTokenCount", "candidatesTokenCount", "totalTokenCount", "cachedContentTokenCount",
    "thoughtsTokenCount", "promptTokensDetails", "candidatesTokensDetails"]

theorem geminiUsage_absent {key : String} (h : key ∉ geminiKeys) :
    (geminiUsage u).get? key = none := by
  simp only [geminiKeys, List.mem_cons, List.not_mem_nil, or_false, not_or] at h
  obtain ⟨hprompt, hcandidates, htotal, hcached, hthoughts, hp, hc⟩ := h
  rw [geminiUsage_count u hp hc, geminiCounts, get?_insertPositive_of_ne _ _ hthoughts,
    get?_insertPositive_of_ne _ _ hcached]
  simp [Value.get?, List.lookup_cons, beq_false_of_ne hprompt, beq_false_of_ne hcandidates,
    beq_false_of_ne htotal]

theorem geminiUsage_eitherField {camel snake : String} (hp : camel ≠ "promptTokensDetails")
    (hc : camel ≠ "candidatesTokensDetails") (hsnake : snake ∉ geminiKeys) :
    eitherField (geminiUsage u) camel snake = (u32Field (geminiCounts u) camel).getD 0 := by
  rw [eitherField_eq (u32Field_of_none (geminiUsage_absent hsnake)), geminiUsage_u32Field hp hc]

theorem gemini_givenBack (h : Fits u) : GivenBack .gemini u (fromGemini (geminiUsage u)).1 := by
  obtain ⟨hin, hout, haudio, hcompletionAudio⟩ := h
  obtain ⟨hpromptDetails, hcandidatesDetails⟩ := geminiUsage_details u
  have hread : eitherField (geminiUsage u) "cachedContentTokenCount" "cached_content_token_count" =
      u.cacheReadTokens := by
    rw [geminiUsage_eitherField (by decide) (by decide) (by decide), geminiCounts,
      u32Field_insertPositive_of_ne _ _ (by decide), u32Field_insertPositive_self rfl rfl (by omega)]
  refine .of_buckets ?_ hread ?_ (by simp) (fun _ => ?_) fun _ => ⟨?_, ?_⟩
  · simp only [fromGemini, hread]
    rw [geminiUsage_eitherField (by decide) (by decide) (by decide), geminiCounts,
      u32Field_insertPositive_of_ne _ _ (by decide), u32Field_insertPositive_of_ne _ _ (by decide),
      u32Field_of_get? rfl (min_le_right _ _), min_eq_left (by omega)]
    exact Nat.add_sub_cancel _ _
  · simp only [fromGemini]
    rw [geminiUsage_eitherField (by decide) (by decide) (by decide), geminiCounts,
      u32Field_insertPositive_of_ne _ _ (by decide), u32Field_insertPositive_of_ne _ _ (by decide),
      u32Field_of_get? rfl (by omega)]
    rfl
  · simp only [fromGemini]
    rw [geminiUsage_eitherField (by decide) (by decide) (by decide), geminiCounts,
      u32Field_insertPositive_self (by simp) _ (by omega)]
    rw [get?_insertPositive_of_ne _ _ (by decide)]
    rfl
  · exact geminiAudioTokens_details haudio hpromptDetails (geminiUsage_absent (by decide))
  · exact geminiAudioTokens_details hcompletionAudio hcandidatesDetails
      (geminiUsage_absent (by decide))

theorem usageU32_eq (hcount : u32Field v key = some n) : usageU32 v key = n := by
  unfold u32Field at hcount
  obtain ⟨m, hm, hfits⟩ := Option.bind_eq_some_iff.mp hcount
  have hle : m ≤ u32Max := by
    by_contra hbig
    rw [toU32?, if_neg hbig] at hfits
    cases hfits
  rw [toU32?_of_le hle] at hfits
  obtain rfl := Option.some.inj hfits
  rw [usageU32, hm]
  exact Nat.mod_eq_of_lt (Nat.lt_succ_of_le hle)

theorem usageU32_absent (h : v.get? key = none) : usageU32 v key = 0 := by
  rw [usageU32, h]
  rfl

theorem usageU32_insertPositive_of_ne {other : String} (v : Value) (n : ℕ) (h : other ≠ key) :
    usageU32 (insertPositive v key n) other = usageU32 v other := by
  rw [usageU32, usageU32, get?_insertPositive_of_ne v n h]

theorem usageU32_insertPositive_self (hobj : v.isObject = true) (habsent : v.get? key = none)
    (hn : n ≤ u32Max) : usageU32 (insertPositive v key n) key = n := by
  unfold insertPositive
  split
  · exact usageU32_eq (u32Field_of_get? (Value.get?_insert_self key _ hobj) hn)
  · rename_i hzero
    rw [usageU32_absent habsent]
    exact (Nat.eq_zero_of_not_pos hzero).symm

theorem converse_givenBack (h : Fits u) :
    GivenBack .converse u (usageFromConverse (encodeConverseUsage u)).1 := by
  obtain ⟨hin, hout, -, -⟩ := h
  have htotal : ∀ key, key ≠ "totalTokens" → usageU32 (encodeConverseUsage u) key =
      usageU32 (insertPositive (insertPositive (.object [("inputTokens", (u.promptTokens : Value)),
        ("outputTokens", u.completionTokens)]) "cacheReadInputTokens" u.cacheReadTokens)
        "cacheWriteInputTokens" u.cacheWriteTokens) key := by
    intro key hkey
    rw [usageU32, encodeConverseUsage, Value.get?_insert_of_ne _ _ hkey]
    rfl
  refine .of_buckets ?_ ?_ ?_ (fun _ => ?_) (by simp) (by simp)
  · simp only [usageFromConverse]
    rw [htotal _ (by decide), usageU32_insertPositive_of_ne _ _ (by decide),
      usageU32_insertPositive_of_ne _ _ (by decide)]
    exact usageU32_eq (u32Field_of_get? rfl (by omega))
  · simp only [usageFromConverse]
    rw [htotal _ (by decide), usageU32_insertPositive_of_ne _ _ (by decide),
      usageU32_insertPositive_self rfl rfl (by omega)]
  · simp only [usageFromConverse]
    rw [htotal _ (by decide), usageU32_insertPositive_of_ne _ _ (by decide),
      usageU32_insertPositive_of_ne _ _ (by decide)]
    exact usageU32_eq (u32Field_of_get? rfl (by omega))
  · simp only [usageFromConverse]
    rw [htotal _ (by decide), usageU32_insertPositive_self (by simp) _ (by omega)]
    rw [get?_insertPositive_of_ne _ _ (by decide)]
    rfl

/-- The count at a path, whatever its size. -/
def countAt (usage : Value) : List String → Option ℕ
  | [] => usage.asU64?
  | key :: rest => (usage.get? key).bind fun v => countAt v rest

/-- `b` is a count of the object at its own value, or zero. -/
def ReadFrom (usage : Value) (paths : List (List String)) (b : ℕ) : Prop :=
  b ≤ u32Max ∧ (b = 0 ∨ ∃ path ∈ paths, countAt usage path = some b)

/-- Where a wire keeps its counts, and which of them include another bucket. -/
structure CountPaths where
  prompt : List (List String)
  promptIncludesCached : Bool
  cacheRead : List (List String)
  cacheWrite : List (List String)
  completion : List (List String)
  completionIncludesReasoning : Bool
  reasoning : List (List String)
  audio : List (List String) := []
  completionAudio : List (List String) := []

def countPaths : Wire → CountPaths
  | .chatCompletions =>
    { prompt := [["prompt_tokens"]]
      promptIncludesCached := true
      cacheRead := [["prompt_tokens_details", "cached_tokens"], ["cached_tokens"],
        ["prompt_cache_hit_tokens"]]
      cacheWrite := [["prompt_tokens_details", "cache_write_tokens"]]
      completion := [["completion_tokens"]]
      completionIncludesReasoning := true
      reasoning := [["completion_tokens_details", "reasoning_tokens"]]
      audio := [["prompt_tokens_details", "audio_tokens"]]
      completionAudio := [["completion_tokens_details", "audio_tokens"]] }
  | .messages =>
    { prompt := [["input_tokens"]]
      promptIncludesCached := false
      cacheRead := [["cache_read_input_tokens"]]
      cacheWrite := [["cache_creation_input_tokens"]]
      completion := [["output_tokens"]]
      completionIncludesReasoning := true
      reasoning := [["output_tokens_details", "thinking_tokens"]] }
  | .responses =>
    { prompt := [["input_tokens"]]
      promptIncludesCached := true
      cacheRead := [["input_tokens_details", "cached_tokens"]]
      cacheWrite := [["input_tokens_details", "cache_write_tokens"]]
      completion := [["output_tokens"]]
      completionIncludesReasoning := true
      reasoning := [["output_tokens_details", "reasoning_tokens"]] }
  | .gemini =>
    { prompt := [["promptTokenCount"], ["prompt_token_count"]]
      promptIncludesCached := true
      cacheRead := [["cachedContentTokenCount"], ["cached_content_token_count"]]
      cacheWrite := []
      completion := [["candidatesTokenCount"], ["candidates_token_count"]]
      completionIncludesReasoning := false
      reasoning := [["thoughtsTokenCount"], ["thoughts_token_count"]] }
  | .converse =>
    { prompt := [["inputTokens"]]
      promptIncludesCached := false
      cacheRead := [["cacheReadInputTokens"]]
      cacheWrite := [["cacheWriteInputTokens"]]
      completion := [["outputTokens"]]
      completionIncludesReasoning := false
      reasoning := [] }

/-- The audio rows of a Gemini usage object, added up. -/
def audioSum (usage : Value) (camel snake : String) : ℕ :=
  match ((usage.get? camel).orElse fun _ => usage.get? snake).bind Value.asArray? with
  | none => 0
  | some details => (details.map fun item => (audioCount item).getD 0).sum

/-- Every bucket is a count of the usage object, less the bucket it includes;
the audio rows of Gemini are added up to the cap. -/
structure Unwrapped (wire : Wire) (usage : Value) (d : IrUsage) : Prop where
  prompt : ∃ p, ReadFrom usage (countPaths wire).prompt p ∧
    d.promptTokens = p - if (countPaths wire).promptIncludesCached then d.cacheReadTokens else 0
  cacheRead : ReadFrom usage (countPaths wire).cacheRead d.cacheReadTokens
  cacheWrite : ReadFrom usage (countPaths wire).cacheWrite d.cacheWriteTokens
  completion : ∃ c, ReadFrom usage (countPaths wire).completion c ∧
    d.completionTokens =
      c - if (countPaths wire).completionIncludesReasoning then d.reasoningTokens else 0
  reasoning : ReadFrom usage (countPaths wire).reasoning d.reasoningTokens
  audio : wire ≠ .gemini → ReadFrom usage (countPaths wire).audio d.audioTokens ∧
    ReadFrom usage (countPaths wire).completionAudio d.completionAudioTokens
  geminiAudio : wire = .gemini →
    d.audioTokens = min (audioSum usage "promptTokensDetails" "prompt_tokens_details") u32Max ∧
    d.completionAudioTokens =
      min (audioSum usage "candidatesTokensDetails" "candidates_tokens_details") u32Max

/-- What is read, if anything, is a count at one of the paths that fits. -/
def Counts (usage : Value) (paths : List (List String)) (count : Option ℕ) : Prop :=
  ∀ n, count = some n → n ≤ u32Max ∧ ∃ path ∈ paths, countAt usage path = some n

variable {usage : Value} {paths more : List (List String)} {count : Option ℕ}

theorem Counts.readFrom (h : Counts usage paths count) : ReadFrom usage paths (count.getD 0) := by
  cases count with
  | none => exact ⟨Nat.zero_le _, .inl rfl⟩
  | some n => exact ⟨(h n rfl).1, .inr (h n rfl).2⟩

theorem counts_field (usage : Value) (key : String) :
    Counts usage [[key]] (u32Field usage key) := by
  intro n hn
  obtain ⟨m, hm, hfits⟩ := Option.bind_eq_some_iff.mp hn
  unfold toU32? at hfits
  split at hfits
  · rename_i hle
    obtain rfl := Option.some.inj hfits
    exact ⟨hle, [key], List.mem_singleton_self _, hm⟩
  · cases hfits

theorem counts_nested (usage : Value) (object key : String) :
    Counts usage [[object, key]] (nestedU32 usage object key) := by
  intro n hn
  obtain ⟨details, hdetails, hcount⟩ := Option.bind_eq_some_iff.mp hn
  obtain ⟨hle, path, hpath, hat⟩ := counts_field details key n hcount
  obtain rfl := List.mem_singleton.mp hpath
  refine ⟨hle, [object, key], List.mem_singleton_self _, ?_⟩
  rw [countAt, hdetails]
  exact hat

theorem Counts.orElse {next : Unit → Option ℕ} (h : Counts usage paths count)
    (hnext : Counts usage more (next ())) : Counts usage (paths ++ more) (count.orElse next) := by
  intro n hn
  cases count with
  | none =>
    obtain ⟨hle, path, hpath, hat⟩ := hnext n hn
    exact ⟨hle, path, List.mem_append_right _ hpath, hat⟩
  | some m =>
    obtain ⟨hle, path, hpath, hat⟩ := h n hn
    exact ⟨hle, path, List.mem_append_left _ hpath, hat⟩

theorem Counts.positive (h : Counts usage paths count) :
    Counts usage paths (UsageDecoding.positive count) :=
  fun n hn => h n (Option.filter_eq_some_iff.mp hn).1

theorem counts_either (usage : Value) (camel snake : String) :
    ReadFrom usage [[camel], [snake]] (eitherField usage camel snake) :=
  ((counts_field usage camel).orElse (counts_field usage snake)).readFrom

theorem readFrom_zero (usage : Value) (paths : List (List String)) : ReadFrom usage paths 0 :=
  ⟨Nat.zero_le _, .inl rfl⟩

theorem foldl_satAdd (items : List Value) (total : ℕ) (h : total ≤ u32Max) :
    items.foldl (fun total item => satAdd total ((audioCount item).getD 0)) total =
      min (total + (items.map fun item => (audioCount item).getD 0).sum) u32Max := by
  induction items generalizing total with
  | nil => exact (min_eq_left h).symm
  | cons item rest ih =>
    rw [List.foldl_cons, ih (satAdd total _) (min_le_right _ _), List.map_cons, List.sum_cons, satAdd]
    omega

theorem geminiAudioTokens_eq (usage : Value) (camel snake : String) :
    geminiAudioTokens usage camel snake = min (audioSum usage camel snake) u32Max := by
  unfold geminiAudioTokens audioSum
  cases ((usage.get? camel).orElse fun _ => usage.get? snake).bind Value.asArray? with
  | none => exact (Nat.zero_min _).symm
  | some details =>
    have hfold := foldl_satAdd details 0 (Nat.zero_le _)
    rwa [Nat.zero_add] at hfold

theorem chat_unwrapped (usage : Value) :
    Unwrapped .chatCompletions usage (fromChat usage).1 where
  prompt := ⟨_, (counts_field usage "prompt_tokens").readFrom, rfl⟩
  cacheRead := ((counts_nested usage "prompt_tokens_details" "cached_tokens").positive.orElse
    ((counts_field usage "cached_tokens").positive.orElse
      (counts_field usage "prompt_cache_hit_tokens"))).readFrom
  cacheWrite := (counts_nested usage "prompt_tokens_details" "cache_write_tokens").readFrom
  completion := ⟨_, (counts_field usage "completion_tokens").readFrom, rfl⟩
  reasoning := (counts_nested usage "completion_tokens_details" "reasoning_tokens").readFrom
  audio := fun _ => ⟨(counts_nested usage "prompt_tokens_details" "audio_tokens").readFrom,
    (counts_nested usage "completion_tokens_details" "audio_tokens").readFrom⟩
  geminiAudio := fun h => by cases h

theorem messages_unwrapped (usage : Value) :
    Unwrapped .messages usage (fromAnthropic usage).1 where
  prompt := ⟨_, (counts_field usage "input_tokens").readFrom, rfl⟩
  cacheRead := (counts_field usage "cache_read_input_tokens").readFrom
  cacheWrite := (counts_field usage "cache_creation_input_tokens").readFrom
  completion := ⟨_, (counts_field usage "output_tokens").readFrom, rfl⟩
  reasoning := (counts_nested usage "output_tokens_details" "thinking_tokens").readFrom
  audio := fun _ => ⟨readFrom_zero _ _, readFrom_zero _ _⟩
  geminiAudio := fun h => by cases h

theorem responses_unwrapped (usage : Value) :
    Unwrapped .responses usage (fromResponses usage).1 where
  prompt := ⟨_, (counts_field usage "input_tokens").readFrom, rfl⟩
  cacheRead := (counts_nested usage "input_tokens_details" "cached_tokens").readFrom
  cacheWrite := (counts_nested usage "input_tokens_details" "cache_write_tokens").readFrom
  completion := ⟨_, (counts_field usage "output_tokens").readFrom, rfl⟩
  reasoning := (counts_nested usage "output_tokens_details" "reasoning_tokens").readFrom
  audio := fun _ => ⟨readFrom_zero _ _, readFrom_zero _ _⟩
  geminiAudio := fun h => by cases h

theorem gemini_unwrapped (usage : Value) : Unwrapped .gemini usage (fromGemini usage).1 where
  prompt := ⟨_, counts_either usage "promptTokenCount" "prompt_token_count", rfl⟩
  cacheRead := counts_either usage "cachedContentTokenCount" "cached_content_token_count"
  cacheWrite := readFrom_zero _ _
  completion := ⟨_, counts_either usage "candidatesTokenCount" "candidates_token_count", rfl⟩
  reasoning := counts_either usage "thoughtsTokenCount" "thoughts_token_count"
  audio := fun h => absurd rfl h
  geminiAudio := fun _ => ⟨geminiAudioTokens_eq _ _ _, geminiAudioTokens_eq _ _ _⟩

/-- The counts that a Converse usage is read from. -/
def converseKeys : List String :=
  ["inputTokens", "outputTokens", "cacheReadInputTokens", "cacheWriteInputTokens"]

/-- Each of these counts fits in a `u32`. -/
def CountsFit (usage : Value) : Prop :=
  ∀ key ∈ converseKeys, ∀ n, countAt usage [key] = some n → n ≤ u32Max

theorem usageU32_readFrom (h : CountsFit usage) (key : String) (hkey : key ∈ converseKeys) :
    ReadFrom usage [[key]] (usageU32 usage key) := by
  cases hcount : (usage.get? key).bind Value.asU64? with
  | none =>
    rw [usageU32, hcount]
    exact readFrom_zero _ _
  | some n =>
    have hle : n ≤ u32Max := h key hkey n hcount
    rw [usageU32_eq (n := n) (by rw [u32Field, hcount]; exact toU32?_of_le hle)]
    exact ⟨hle, .inr ⟨[key], List.mem_singleton_self _, hcount⟩⟩

theorem converse_unwrapped (h : CountsFit usage) :
    Unwrapped .converse usage (usageFromConverse usage).1 where
  prompt := ⟨_, usageU32_readFrom h "inputTokens" (by decide), rfl⟩
  cacheRead := usageU32_readFrom h "cacheReadInputTokens" (by decide)
  cacheWrite := usageU32_readFrom h "cacheWriteInputTokens" (by decide)
  completion := ⟨_, usageU32_readFrom h "outputTokens" (by decide), rfl⟩
  reasoning := readFrom_zero _ _
  audio := fun _ => ⟨readFrom_zero _ _, readFrom_zero _ _⟩
  geminiAudio := fun h => by cases h

/-- Every wire gives back the buckets it has fields for, and reads every count
that fits at its own value; only Converse is not protected against the others. -/
theorem usage_round_trip (wire : Wire) :
    (∀ (u : IrUsage) (inferenceGeo : Option String), Fits u →
      GivenBack wire u (decodeUsage wire (usageObject wire u inferenceGeo)).1) ∧
    ∀ usage : Value, (wire = .converse → CountsFit usage) →
      Unwrapped wire usage (decodeUsage wire usage).1 := by
  cases wire with
  | chatCompletions => exact ⟨fun _ _ h => chat_givenBack h, fun usage _ => chat_unwrapped usage⟩
  | messages => exact ⟨fun _ geo h => messages_givenBack h geo, fun usage _ => messages_unwrapped usage⟩
  | responses => exact ⟨fun _ _ h => responses_givenBack h, fun usage _ => responses_unwrapped usage⟩
  | gemini => exact ⟨fun _ _ h => gemini_givenBack h, fun usage _ => gemini_unwrapped usage⟩
  | converse => exact ⟨fun _ _ h => converse_givenBack h, fun _ h => converse_unwrapped (h rfl)⟩

/-- A usage with tokens in every bucket. -/
def sampleUsage : IrUsage := ⟨7, 5, 3, 2, 4, 1, 1⟩

theorem usage_round_trip_sample :
    GivenBack .gemini sampleUsage
      (decodeUsage .gemini (usageObject .gemini sampleUsage none)).1 ∧
    Unwrapped .converse (.object [("inputTokens", 9)])
      (decodeUsage .converse (.object [("inputTokens", 9)])).1 := by
  refine ⟨(usage_round_trip .gemini).1 sampleUsage none
    ⟨by decide, by decide, by decide, by decide⟩, (usage_round_trip .converse).2 _ fun _ => ?_⟩
  intro key _ n hn
  by_cases hkey : key = "inputTokens"
  · subst hkey
    obtain rfl : 9 = n := Option.some.inj hn
    decide
  · simp [countAt, Value.get?, List.lookup_cons, beq_false_of_ne hkey] at hn

/-- Gemini drops the cache creation, and a Converse count of 2^32 + 5 is read as 5. -/
theorem usage_round_trip_fails :
    (¬ ∀ (wire : Wire) (u : IrUsage), Fits u →
      inputTotal (decodeUsage wire (usageObject wire u none)).1 = inputTotal u) ∧
    ¬ ∀ (wire : Wire) (usage : Value), Unwrapped wire usage (decodeUsage wire usage).1 := by
  constructor
  · intro hall
    have h := hall .gemini ⟨0, 0, 0, 1, 0, 0, 0⟩ ⟨by decide, by decide, by decide, by decide⟩
    exact absurd h (by decide)
  · intro hall
    obtain ⟨p, ⟨hle, hcount⟩, hp⟩ :=
      (hall .converse (.object [("inputTokens", .number (.posInt (2 ^ 32 + 5)))])).prompt
    have hfive : p = 5 := hp.symm
    subst hfive
    rcases hcount with h | ⟨path, hpath, hat⟩
    · cases h
    · obtain rfl := List.mem_singleton.mp hpath
      cases Option.some.inj hat

end Wiremux.UsageRoundTrip
