import Wiremux.CredentialWriteback
import Wiremux.MessagesSampling

set_option autoImplicit false

/-!
# Thinking and the other settings of a Messages request

What the constraints read of a body survives the cache breakpoints. Before them
it is a function of the settings: the budget that is written, `max_tokens` raised
above it with saturation, no sampling and no forced tool.
-/
namespace Wiremux.MessagesThinking
open JsonValue StreamEvents Completion FrameDecoding MessagesCache MessagesSampling Losses

def budgetTokens (body : Value) : Option ℕ :=
  (pointer? body ["thinking", "budget_tokens"]).bind Value.asU64?

structure Readings where
  on : Bool
  budget : Option ℕ
  maxTokens : Option ℕ
  sampled : Bool
  forced : Bool

def samplingKeys : List String := ["temperature", "top_p", "top_k"]

def readings (body : Value) : Readings where
  on := thinkingOn body
  budget := budgetTokens body
  maxTokens := maxTokensOf body
  sampled := samplingKeys.any fun key => (body.get? key).isSome
  forced := forcedKind body

/-- The constraints of the vendor on thinking, and on `max_tokens` in every case. -/
structure ThinkingConstraints (body : Value) : Prop where
  budget : thinkingOn body = true → ∃ budget maxTokens, budgetTokens body = some budget ∧
    maxTokensOf body = some maxTokens ∧ budget < maxTokens
  sampling : thinkingOn body = true → ∀ key ∈ samplingKeys, body.get? key = none
  choice : thinkingOn body = true → textAt body ["tool_choice", "type"] ≠ some "any" ∧
    textAt body ["tool_choice", "type"] ≠ some "tool"
  present : ∃ maxTokens, maxTokensOf body = some maxTokens ∧ 1 ≤ maxTokens

structure Readings.Allowed (r : Readings) : Prop where
  budget : r.on = true → ∃ budget maxTokens, r.budget = some budget ∧
    r.maxTokens = some maxTokens ∧ budget < maxTokens
  sampling : r.on = true → r.sampled = false
  choice : r.on = true → r.forced = false
  present : ∃ maxTokens, r.maxTokens = some maxTokens ∧ 1 ≤ maxTokens

theorem sampled_iff (body : Value) :
    (readings body).sampled = false ↔ ∀ key ∈ samplingKeys, body.get? key = none := by
  simp [readings, List.any_eq_false]

theorem constraints_iff (body : Value) : ThinkingConstraints body ↔ (readings body).Allowed := by
  have hsampled := sampled_iff body
  have hforced : (readings body).forced = false ↔ textAt body ["tool_choice", "type"] ≠ some "any" ∧
      textAt body ["tool_choice", "type"] ≠ some "tool" := by
    simp [readings, forcedKind, and_comm]
  constructor
  · intro h
    exact ⟨h.budget, fun hon => hsampled.mpr (h.sampling hon),
      fun hon => hforced.mpr (h.choice hon), h.present⟩
  · intro h
    exact ⟨h.budget, fun hon => hsampled.mp (h.sampling hon),
      fun hon => hforced.mp (h.choice hon), h.present⟩

theorem lookup_stripFields (key : String) (h : key ≠ cacheControlKey)
    (fields : List (String × Value)) :
    (stripFields fields).lookup key = (fields.lookup key).map stripAllCacheControl := by
  induction fields with
  | nil => rfl
  | cons field rest ih =>
    obtain ⟨k, v⟩ := field
    rw [stripFields, List.lookup_cons]
    by_cases hk : key = k
    · subst hk
      rw [if_neg h, List.lookup_cons, beq_self_eq_true]
      rfl
    · rw [beq_false_of_ne hk]
      by_cases hcache : k = cacheControlKey
      · rw [if_pos hcache]
        exact ih
      · rw [if_neg hcache, List.lookup_cons, beq_false_of_ne hk]
        exact ih

theorem get?_strip (key : String) (body : Value) (h : key ≠ cacheControlKey) :
    (stripAllCacheControl body).get? key = (body.get? key).map stripAllCacheControl := by
  cases body with
  | object fields => rw [stripAllCacheControl]; exact lookup_stripFields key h fields
  | _ => rw [stripAllCacheControl] <;> first | rfl | simp

theorem asStr?_strip (value : Value) : (stripAllCacheControl value).asStr? = value.asStr? := by
  cases value <;> simp [stripAllCacheControl, Value.asStr?]

theorem strAt?_strip (key : String) (body : Value) (h : key ≠ cacheControlKey) :
    (stripAllCacheControl body).strAt? key = body.strAt? key := by
  unfold Value.strAt?
  rw [get?_strip key body h]
  cases body.get? key with
  | none => rfl
  | some value => exact asStr?_strip value

theorem asU64?_strip (value : Value) : (stripAllCacheControl value).asU64? = value.asU64? := by
  cases value <;> simp [stripAllCacheControl, Value.asU64?]

theorem textAt_strip (key leaf : String) (body : Value) (h : key ≠ cacheControlKey)
    (hleaf : leaf ≠ cacheControlKey) :
    textAt (stripAllCacheControl body) [key, leaf] = textAt body [key, leaf] := by
  simp only [textAt, pointer?, get?_strip key body h]
  cases body.get? key with
  | none => rfl
  | some inner =>
    simp only [Option.map_some, Option.bind_some, get?_strip leaf inner hleaf]
    cases inner.get? leaf <;> simp [asStr?_strip]

theorem readings_strip (body : Value) : readings (stripAllCacheControl body) = readings body := by
  have hbudget : budgetTokens (stripAllCacheControl body) = budgetTokens body := by
    simp only [budgetTokens, pointer?, get?_strip "thinking" body (by decide)]
    cases body.get? "thinking" with
    | none => rfl
    | some inner =>
      simp only [Option.map_some, Option.bind_some,
        get?_strip "budget_tokens" inner (by decide)]
      cases inner.get? "budget_tokens" <;> simp [asU64?_strip]
  have hmax : maxTokensOf (stripAllCacheControl body) = maxTokensOf body := by
    rw [maxTokensOf, get?_strip "max_tokens" body (by decide), maxTokensOf]
    cases body.get? "max_tokens" <;> simp [asU64?_strip]
  have hsampled : ∀ key ∈ samplingKeys,
      ((stripAllCacheControl body).get? key).isSome = (body.get? key).isSome := by
    intro key hkey
    have hne : key ≠ cacheControlKey := by
      rintro rfl
      exact absurd hkey (by decide)
    rw [get?_strip key body hne, Option.isSome_map]
  have htype := textAt_strip "thinking" "type" body (by decide) (by decide)
  have hchoice := textAt_strip "tool_choice" "type" body (by decide) (by decide)
  simp only [readings, thinkingOn, forcedKind, hbudget, hmax, htype, hchoice, samplingKeys,
    List.any_cons, List.any_nil, hsampled "temperature" (by decide), hsampled "top_p" (by decide),
    hsampled "top_k" (by decide)]

def readKeys : List String :=
  ["thinking", "max_tokens", "temperature", "top_p", "top_k", "tool_choice"]

theorem readings_congr {a b : Value} (h : ∀ key ∈ readKeys, a.get? key = b.get? key) :
    readings a = readings b := by
  simp only [readings, thinkingOn, budgetTokens, maxTokensOf, forcedKind, textAt, pointer?,
    samplingKeys, List.any_cons, List.any_nil, h "thinking" (by decide), h "max_tokens" (by decide),
    h "temperature" (by decide), h "top_p" (by decide), h "top_k" (by decide),
    h "tool_choice" (by decide)]

def taggedKeys : List String := ["tools", "system", "messages"]

variable {key : String} {ttl : Option String}

theorem get?_tagLastTool (body : Value) (h : key ∉ taggedKeys) :
    (tagLastTool body ttl).get? key = body.get? key := by
  unfold tagLastTool
  split
  · exact Value.get?_insert_of_ne _ _ fun heq => h (heq ▸ by decide)
  · rfl

theorem get?_tagSystemSlot (body : Value) (first : Bool) (h : key ∉ taggedKeys) :
    (tagSystemSlot body ttl first).2.get? key = body.get? key := by
  have hne : key ≠ "system" := fun heq => h (heq ▸ by decide)
  unfold tagSystemSlot
  split
  · rfl
  · exact Value.get?_insert_of_ne _ _ hne
  · exact Value.get?_insert_of_ne _ _ hne
  · exact Value.get?_insert_of_ne _ _ hne
  · rfl

theorem get?_tagFirstUserText (body : Value) (h : key ∉ taggedKeys) :
    (tagFirstUserText body ttl).get? key = body.get? key := by
  unfold tagFirstUserText
  split
  · exact Value.get?_insert_of_ne _ _ fun heq => h (heq ▸ by decide)
  · rfl

theorem get?_applyPreferred (body : Value) (h : key ∉ taggedKeys) :
    (applyPreferredCacheBreakpoints body ttl).get? key = body.get? key := by
  unfold applyPreferredCacheBreakpoints
  split
  · split
    · simp only
      split
      · rw [get?_tagSystemSlot _ _ h, get?_tagLastTool _ h]
      · rw [get?_tagFirstUserText _ h, get?_tagSystemSlot _ _ h, get?_tagLastTool _ h]
    · rw [get?_tagFirstUserText _ h, get?_tagSystemSlot _ _ h]
  · simp only
    rw [get?_tagFirstUserText _ h]
    split
    · exact get?_tagSystemSlot _ _ h
    · rw [get?_tagSystemSlot _ _ h, get?_tagSystemSlot _ _ h]

theorem readings_applyPreferred (body : Value) :
    readings (applyPreferredCacheBreakpoints body ttl) = readings body :=
  readings_congr fun key hkey => get?_applyPreferred body (by
    intro htagged
    revert key
    decide)

theorem readings_applyCache (body : Value) (cache : IrCache) (estimated : ℕ)
    (report : LossReport) :
    readings (applyCacheBreakpoints body cache estimated report).1 = readings body := by
  have hpreferred : readings (enforceCacheControlLimit (applyPreferredCacheBreakpoints
      (stripAllCacheControl body) (ttlOf cache.retention)) (ttlOf cache.retention)) =
      readings body := by
    unfold enforceCacheControlLimit
    split
    · rw [readings_applyPreferred, readings_strip]
    · rw [readings_applyPreferred, readings_strip, readings_applyPreferred, readings_strip]
  unfold applyCacheBreakpoints
  split
  · rfl
  · split
    · rfl
    · simp only
      split <;> exact hpreferred

theorem get?_insertSome_self {v : Value} (key : String) (x : Option Value)
    (h : v.isObject = true) : (v.insertSome key x).get? key = x.or (v.get? key) := by
  cases x with
  | none => rfl
  | some x => exact Value.get?_insert_self key x h

variable {body : Value} {s : IrSampling} {decimal : ℚ → ℚ}

/-- A body that no setting was written into. -/
structure Unset (body : Value) : Prop where
  object : body.isObject = true
  unset : ∀ key ∈ readKeys, body.get? key = none

theorem plain_maxTokens (h : Unset body) :
    (plainSettings decimal s body).get? "max_tokens" = s.maxTokens.map num := by
  simp [plainSettings, encodeDisableParallelToolUse, encodeToolChoice,
    Value.get?_insertSome_of_ne, get?_insertSome_self, h.object,
    h.unset "max_tokens" (by decide)]

theorem plain_thinking (h : Unset body) :
    (plainSettings decimal s body).get? "thinking" = none := by
  simp [plainSettings, encodeDisableParallelToolUse, encodeToolChoice,
    Value.get?_insertSome_of_ne, h.unset "thinking" (by decide)]

theorem plain_choice (h : Unset body) : (plainSettings decimal s body).get? "tool_choice" =
    disableParallel (toolChoiceValue s.toolChoice) s.parallelToolCalls := by
  have hread : (plainSettings decimal s body).get? "tool_choice" =
      (disableParallel (toolChoiceValue s.toolChoice) s.parallelToolCalls).or
        (toolChoiceValue s.toolChoice) := by
    simp [plainSettings, encodeDisableParallelToolUse, encodeToolChoice,
      Value.get?_insertSome_of_ne, get?_insertSome_self, h.object,
      h.unset "tool_choice" (by decide)]
  rw [hread]
  rcases s.parallelToolCalls with _ | _ | _ <;> cases s.toolChoice <;> rfl

theorem plain_sampling (h : Unset body) :
    (plainSettings decimal s body).get? "temperature" = s.temperature.map (jsonF32 decimal) ∧
    (plainSettings decimal s body).get? "top_p" = s.topP.map (jsonF32 decimal) ∧
    (plainSettings decimal s body).get? "top_k" = s.topK.map num := by
  refine ⟨?_, ?_, ?_⟩ <;>
    simp [plainSettings, encodeDisableParallelToolUse, encodeToolChoice,
      Value.get?_insertSome_of_ne, get?_insertSome_self, h.object,
      h.unset "temperature" (by decide), h.unset "top_p" (by decide), h.unset "top_k" (by decide)]

theorem native_not_enabled {native : Value} (h : nativeThinking s = some native) :
    native.strAt? "type" ≠ some "enabled" := by
  intro henabled
  have hkind := (Option.filter_eq_some_iff.mp h).2
  rw [henabled] at hkind
  revert hkind
  decide

theorem thinkingOn_insert {v thinking : Value} (h : v.isObject = true) :
    thinkingOn (v.insert "thinking" thinking) = (thinking.strAt? "type" == some "enabled") := by
  simp [thinkingOn, textAt, pointer?, Value.get?_insert_self _ _ h, Value.strAt?]

theorem encodeThinking_none {v : Value} (h : enabledBudget s = none) (hobj : v.isObject = true)
    (hunset : v.get? "thinking" = none) : thinkingOn (encodeThinking s v) = false ∧
      (encodeThinking s v).get? "max_tokens" = v.get? "max_tokens" := by
  unfold encodeThinking
  cases hnative : nativeThinking s with
  | some native =>
    refine ⟨?_, Value.get?_insert_of_ne _ _ (by decide)⟩
    rw [thinkingOn_insert hobj]
    exact beq_false_of_ne (native_not_enabled hnative)
  | none =>
    simp only
    split
    · exact ⟨by rw [thinkingOn_insert hobj]; rfl, Value.get?_insert_of_ne _ _ (by decide)⟩
    · rename_i hthoughts
      split
      · exact ⟨by simp [thinkingOn, textAt, pointer?, hunset], rfl⟩
      · rename_i hwants
        simp [enabledBudget, hnative, hthoughts, hwants] at h

theorem encodeThinking_some {v : Value} {budget : ℕ} (h : enabledBudget s = some budget) :
    encodeThinking s v = raisedMaxTokens
      ((maxTokensOf (v.insert "thinking" (enabledThinking budget))).getD 0 % (u32Max + 1)) budget
      (v.insert "thinking" (enabledThinking budget)) := by
  unfold enabledBudget at h
  split at h
  · cases h
  · rename_i hopen
    obtain rfl := Option.some.inj h
    have hwants : wantsEnable s = true := by
      by_contra hno
      simp [hno] at hopen
    simp only [hwants, Bool.not_true, Bool.or_false, Bool.or_eq_true, not_or, Bool.not_eq_true,
      Option.isSome_eq_false_iff, Option.isNone_iff_eq_none, beq_eq_false_iff_ne] at hopen
    have hon : ¬ wantsEnable s = false := by simp [hwants]
    unfold encodeThinking
    rw [hopen.1]
    simp only [if_neg hopen.2, if_neg hon]

def writtenMaxTokens (s : IrSampling) : ℕ :=
  match enabledBudget s with
  | some budget =>
    if (s.maxTokens.map UInt32.toNat).getD 0 ≤ budget then satAdd budget defaultCompletionTokens
    else (s.maxTokens.map UInt32.toNat).getD 0
  | none => (s.maxTokens.map UInt32.toNat).getD defaultCompletionTokens

theorem get?_omitForced_of_ne (choice : IrToolChoice) (v : Value) (h : key ≠ "tool_choice") :
    (omitForcedChoice choice v).get? key = v.get? key := by
  unfold omitForcedChoice
  split
  · exact Value.get?_insert_of_ne _ _ h
  · rfl

theorem get?_removeIf_of_ne {other : String} (present : Bool) (v : Value) (h : key ≠ other) :
    (removeIf present other v).get? key = v.get? key := by
  unfold removeIf
  split
  · exact CredentialWriteback.get?_remove_of_ne v h
  · rfl

theorem get?_omitSampling_of_ne (v : Value) (h : key ∉ samplingKeys) (hchoice : key ≠ "tool_choice") :
    (omitSamplingRejectedByThinking s v).get? key = v.get? key := by
  have hne : ∀ other ∈ samplingKeys, key ≠ other := fun other hmem heq => h (heq ▸ hmem)
  unfold omitSamplingRejectedByThinking
  split
  · rw [get?_omitForced_of_ne _ _ hchoice, get?_removeIf_of_ne _ _ (hne "top_k" (by decide)),
      get?_removeIf_of_ne _ _ (hne "top_p" (by decide)),
      get?_removeIf_of_ne _ _ (hne "temperature" (by decide))]
  · rfl

theorem get?_omitModel_of_ne (model : String) (v : Value) (h : key ≠ "tool_choice") :
    (omitForcedToolChoiceRejectedByModel model v).get? key = v.get? key := by
  unfold omitForcedToolChoiceRejectedByModel
  split
  · exact Value.get?_insertSome_of_ne _ _ h
  · rfl

theorem get?_outputConfig_of_ne (v : Value) (h : key ≠ "output_config") :
    (encodeOutputConfig s v).get? key = v.get? key := by
  unfold encodeOutputConfig
  split
  · rfl
  · exact Value.get?_insert_of_ne _ _ h

theorem get?_late_of_ne (v : Value) (hmax : key ≠ "max_tokens") (hconfig : key ≠ "output_config")
    (hmetadata : key ≠ "metadata") : (lateSettings s v).get? key = v.get? key := by
  unfold lateSettings
  simp only
  rw [Value.get?_insertSome_of_ne _ _ hmetadata, get?_outputConfig_of_ne _ hconfig]
  split
  · exact Value.get?_insert_of_ne _ _ hmax
  · rfl

theorem late_maxTokens {v : Value} (hobj : v.isObject = true) : (lateSettings s v).get? "max_tokens" =
    some ((v.get? "max_tokens").getD (.number (.posInt defaultCompletionTokens))) := by
  unfold lateSettings
  simp only
  rw [Value.get?_insertSome_of_ne _ _ (by decide), get?_outputConfig_of_ne _ (by decide)]
  cases hread : v.get? "max_tokens" with
  | none => simp [Value.get?_insert_self _ _ hobj]
  | some n => simp [hread]

@[simp] theorem isObject_remove (v : Value) (key : String) : (v.remove key).isObject = v.isObject := by
  cases v <;> rfl

@[simp] theorem isObject_removeIf (present : Bool) (key : String) (v : Value) :
    (removeIf present key v).isObject = v.isObject := by
  unfold removeIf
  split
  · exact isObject_remove v key
  · rfl

theorem get?_remove_self (v : Value) (key : String) : (v.remove key).get? key = none := by
  cases v with
  | object fields =>
    refine List.lookup_eq_none_iff.mpr fun f hf => ?_
    have hne := (List.mem_filter.mp hf).2
    simp only [decide_eq_true_eq] at hne
    exact bne_iff_ne.mpr (Ne.symm hne)
  | _ => rfl

theorem get?_removeIf_self {v : Value} {written : Option Value} (h : v.get? key = written) :
    (removeIf written.isSome key v).get? key = none := by
  unfold removeIf
  cases written with
  | none => exact h
  | some x => exact get?_remove_self v key

theorem isObject_plain (h : body.isObject = true) : (plainSettings decimal s body).isObject = true := by
  simp [plainSettings, encodeDisableParallelToolUse, encodeToolChoice, h]

theorem isObject_thinking {v : Value} (h : v.isObject = true) :
    (encodeThinking s v).isObject = true := by
  unfold encodeThinking
  split
  · simpa using h
  · split
    · simpa using h
    · split
      · exact h
      · simp only [raisedMaxTokens]
        split <;> simpa using h

theorem isObject_omitForced {v : Value} (choice : IrToolChoice) (h : v.isObject = true) :
    (omitForcedChoice choice v).isObject = true := by
  unfold omitForcedChoice
  split
  · simpa using h
  · exact h

theorem isObject_omitSampling {v : Value} (h : v.isObject = true) :
    (omitSamplingRejectedByThinking s v).isObject = true := by
  unfold omitSamplingRejectedByThinking
  split
  · exact isObject_omitForced _ (by simpa using h)
  · exact h

theorem isObject_omitModel {v : Value} (model : String) (h : v.isObject = true) :
    (omitForcedToolChoiceRejectedByModel model v).isObject = true := by
  unfold omitForcedToolChoiceRejectedByModel
  split
  · simpa using h
  · exact h

theorem isObject_late {v : Value} (h : v.isObject = true) : (lateSettings s v).isObject = true := by
  have hconfig : ∀ w : Value, w.isObject = true → (encodeOutputConfig s w).isObject = true := by
    intro w hw
    unfold encodeOutputConfig
    split
    · exact hw
    · rw [Value.isObject_insert]
      exact hw
  unfold lateSettings
  simp only
  rw [Value.isObject_insertSome]
  apply hconfig
  split
  · rw [Value.isObject_insert]
    exact h
  · exact h

structure Written (s : IrSampling) (decimal : ℚ → ℚ) (v : Value) : Prop where
  object : v.isObject = true
  temperature : v.get? "temperature" = s.temperature.map (jsonF32 decimal)
  topP : v.get? "top_p" = s.topP.map (jsonF32 decimal)
  topK : v.get? "top_k" = s.topK.map num
  choice : v.get? "tool_choice" = disableParallel (toolChoiceValue s.toolChoice) s.parallelToolCalls

theorem omitSampling_sampled {v : Value} (h : Written s decimal v) (hon : thinkingOn v = true) :
    ∀ key ∈ samplingKeys, (omitSamplingRejectedByThinking s v).get? key = none := by
  have htemperature : s.temperature.isSome = (s.temperature.map (jsonF32 decimal)).isSome := by simp
  have htopP : s.topP.isSome = (s.topP.map (jsonF32 decimal)).isSome := by simp
  have htopK : s.topK.isSome = (s.topK.map num).isSome := by simp
  intro key hkey
  rw [omitSamplingRejectedByThinking, if_pos hon,
    get?_omitForced_of_ne _ _ (by rintro rfl; exact absurd hkey (by decide)), htemperature, htopP,
    htopK]
  simp only [samplingKeys, List.mem_cons, List.not_mem_nil, or_false] at hkey
  rcases hkey with rfl | rfl | rfl
  · rw [get?_removeIf_of_ne _ _ (by decide), get?_removeIf_of_ne _ _ (by decide)]
    exact get?_removeIf_self h.temperature
  · rw [get?_removeIf_of_ne _ _ (by decide)]
    exact get?_removeIf_self ((get?_removeIf_of_ne _ _ (by decide)).trans h.topP)
  · exact get?_removeIf_self ((get?_removeIf_of_ne _ _ (by decide)).trans
      ((get?_removeIf_of_ne _ _ (by decide)).trans h.topK))

theorem asAuto_type {choice : Value} (h : choice.isObject = true) :
    (asAuto choice).strAt? "type" = some "auto" := by
  rw [asAuto, Value.strAt?, CredentialWriteback.get?_remove_of_ne _ (by decide),
    Value.get?_insert_self _ _ h]
  rfl

theorem omitSampling_forced {v : Value} (h : Written s decimal v) (hon : thinkingOn v = true) :
    forcedKind (omitSamplingRejectedByThinking s v) = false := by
  rw [omitSamplingRejectedByThinking, if_pos hon]
  obtain ⟨w, hw⟩ : ∃ w, removeIf s.topK.isSome "top_k" (removeIf s.topP.isSome "top_p"
      (removeIf s.temperature.isSome "temperature" v)) = w := ⟨_, rfl⟩
  have hobj : w.isObject = true := by rw [← hw]; simpa using h.object
  have hchoice : w.get? "tool_choice" =
      disableParallel (toolChoiceValue s.toolChoice) s.parallelToolCalls := by
    rw [← hw, get?_removeIf_of_ne _ _ (by decide), get?_removeIf_of_ne _ _ (by decide),
      get?_removeIf_of_ne _ _ (by decide), h.choice]
  rw [hw]
  by_cases hforced : isForced s.toolChoice = true
  · obtain ⟨sent, hsent⟩ : ∃ sent, ((w.get? "tool_choice").filter Value.isObject).elim
        (.object [("type", "auto")]) asAuto = sent := ⟨_, rfl⟩
    have htype : sent.strAt? "type" = some "auto" := by
      rw [← hsent]
      cases hkept : (w.get? "tool_choice").filter Value.isObject with
      | none => rfl
      | some choice => exact asAuto_type (Option.filter_eq_some_iff.mp hkept).2
    have hread : textAt (w.insert "tool_choice" sent) ["tool_choice", "type"] = some "auto" := by
      rw [← htype, textAt, pointer?, Value.get?_insert_self _ _ hobj]
      simp [pointer?, Value.strAt?]
    rw [omitForcedChoice, if_pos hforced, hsent, forcedKind, hread]
    rfl
  · rw [omitForcedChoice, if_neg hforced, forcedKind, textAt, pointer?, hchoice]
    revert hforced
    rcases s.parallelToolCalls with _ | _ | _ <;> cases s.toolChoice <;>
      first | decide | exact fun hno => absurd rfl hno

/-- A body as the settings leave it, before the cache breakpoints. -/
structure Encoded (s : IrSampling) (v : Value) : Prop where
  object : v.isObject = true
  on : thinkingOn v = (enabledBudget s).isSome
  budget : ∀ budget, enabledBudget s = some budget → budgetTokens v = some budget
  maxTokens : maxTokensOf v = some (writtenMaxTokens s)
  sampling : thinkingOn v = true → ∀ key ∈ samplingKeys, v.get? key = none
  choice : thinkingOn v = true → forcedKind v = false

theorem written_thinking {v : Value} (h : Written s decimal v) :
    Written s decimal (encodeThinking s v) := by
  have hkeep : ∀ key, key ≠ "thinking" → key ≠ "max_tokens" →
      (encodeThinking s v).get? key = v.get? key := by
    intro key hthinking hmax
    unfold encodeThinking
    split
    · exact Value.get?_insert_of_ne _ _ hthinking
    · split
      · exact Value.get?_insert_of_ne _ _ hthinking
      · split
        · rfl
        · simp only [raisedMaxTokens]
          split
          · rw [Value.get?_insert_of_ne _ _ hmax, Value.get?_insert_of_ne _ _ hthinking]
          · exact Value.get?_insert_of_ne _ _ hthinking
  exact ⟨isObject_thinking h.object, (hkeep _ (by decide) (by decide)).trans h.temperature,
    (hkeep _ (by decide) (by decide)).trans h.topP, (hkeep _ (by decide) (by decide)).trans h.topK,
    (hkeep _ (by decide) (by decide)).trans h.choice⟩

theorem written_plain (h : Unset body) : Written s decimal (plainSettings decimal s body) :=
  ⟨isObject_plain h.object, plain_sampling h |>.1, (plain_sampling h).2.1, (plain_sampling h).2.2,
    plain_choice h⟩

theorem toNat_mod (n : UInt32) : n.toNat % (u32Max + 1) = n.toNat :=
  Nat.mod_eq_of_lt n.toNat_lt

theorem thinking_readings (h : Unset body) (v : Value)
    (hv : v = encodeThinking s (plainSettings decimal s body)) :
    thinkingOn v = (enabledBudget s).isSome ∧
    (∀ budget, enabledBudget s = some budget → budgetTokens v = some budget) ∧
    (maxTokensOf v).getD defaultCompletionTokens = writtenMaxTokens s ∧
    (v.get? "max_tokens" = none ∨ ∃ n : ℕ, v.get? "max_tokens" = some (.number (.posInt n))) := by
  subst hv
  have hobj : (plainSettings decimal s body).isObject = true := isObject_plain h.object
  have hmax : (plainSettings decimal s body).get? "max_tokens" = s.maxTokens.map num :=
    plain_maxTokens h
  cases hbudget : enabledBudget s with
  | none =>
    obtain ⟨hoff, hkept⟩ := encodeThinking_none hbudget hobj (plain_thinking h)
    refine ⟨hoff, fun _ hsome => (by cases hsome), ?_, ?_⟩
    · rw [maxTokensOf, hkept, hmax, writtenMaxTokens, hbudget]
      cases s.maxTokens <;> rfl
    · rw [hkept, hmax]
      cases s.maxTokens with
      | none => exact Or.inl rfl
      | some n => exact Or.inr ⟨n.toNat, rfl⟩
  | some budget =>
    rw [encodeThinking_some hbudget]
    obtain ⟨w, hw⟩ : ∃ w, (plainSettings decimal s body).insert "thinking" (enabledThinking budget) =
      w := ⟨_, rfl⟩
    have hwobj : w.isObject = true := by rw [← hw]; simpa using hobj
    have hwmax : w.get? "max_tokens" = s.maxTokens.map num := by
      rw [← hw, Value.get?_insert_of_ne _ _ (by decide), hmax]
    have hwthinking : w.get? "thinking" = some (enabledThinking budget) := by
      rw [← hw, Value.get?_insert_self _ _ hobj]
    rw [hw]
    have hcurrent : (maxTokensOf w).getD 0 % (u32Max + 1) = (s.maxTokens.map UInt32.toNat).getD 0 := by
      rw [maxTokensOf, hwmax]
      cases s.maxTokens with
      | none => rfl
      | some n => exact toNat_mod n
    rw [hcurrent, raisedMaxTokens]
    have hthinking : ∀ v : Value, v.get? "thinking" = some (enabledThinking budget) →
        thinkingOn v = true ∧ budgetTokens v = some budget := by
      intro v hv
      constructor
      · rw [thinkingOn, textAt, pointer?, hv]
        rfl
      · rw [budgetTokens, pointer?, hv]
        rfl
    split
    · rename_i hlow
      have hread := hthinking (w.insert "max_tokens"
        (.number (.posInt (satAdd budget defaultCompletionTokens))))
        ((Value.get?_insert_of_ne w _ (by decide)).trans hwthinking)
      refine ⟨hread.1, fun b hb => Option.some.inj hb ▸ hread.2, ?_, ?_⟩
      · rw [maxTokensOf, Value.get?_insert_self _ _ hwobj, writtenMaxTokens, hbudget]
        simp only [if_pos hlow]
        rfl
      · exact Or.inr ⟨_, Value.get?_insert_self _ _ hwobj⟩
    · rename_i hhigh
      have hread := hthinking w hwthinking
      refine ⟨hread.1, fun b hb => Option.some.inj hb ▸ hread.2, ?_, ?_⟩
      · rw [maxTokensOf, hwmax, writtenMaxTokens, hbudget]
        simp only [if_neg hhigh]
        cases hmaxTokens : s.maxTokens with
        | none => simp [hmaxTokens] at hhigh
        | some n => rfl
      · rw [hwmax]
        cases s.maxTokens with
        | none => exact Or.inl rfl
        | some n => exact Or.inr ⟨n.toNat, rfl⟩

theorem thinkingOn_congr {a b : Value} (h : a.get? "thinking" = b.get? "thinking") :
    thinkingOn a = thinkingOn b := by
  simp only [thinkingOn, textAt, pointer?, h]

theorem budgetTokens_congr {a b : Value} (h : a.get? "thinking" = b.get? "thinking") :
    budgetTokens a = budgetTokens b := by
  simp only [budgetTokens, pointer?, h]

theorem forcedKind_congr {a b : Value} (h : a.get? "tool_choice" = b.get? "tool_choice") :
    forcedKind a = forcedKind b := by
  simp only [forcedKind, textAt, pointer?, h]

theorem encoded_sampling (model : String) (h : Unset body) :
    Encoded s (encodeSampling decimal model s body) := by
  obtain ⟨v, hv⟩ : ∃ v, v = encodeThinking s (plainSettings decimal s body) := ⟨_, rfl⟩
  obtain ⟨hon, hbudget, hmax, hnumber⟩ := thinking_readings h v hv
  have hwritten : Written s decimal v := hv ▸ written_thinking (written_plain h)
  obtain ⟨w, hw⟩ : ∃ w, w = omitSamplingRejectedByThinking s v := ⟨_, rfl⟩
  obtain ⟨u, hu⟩ : ∃ u, u = omitForcedToolChoiceRejectedByModel model w := ⟨_, rfl⟩
  have hshape : encodeSampling decimal model s body = lateSettings s u := by
    rw [encodeSampling, ← hv, ← hw, ← hu]
  have hwobj : w.isObject = true := hw ▸ isObject_omitSampling hwritten.object
  have huobj : u.isObject = true := hu ▸ isObject_omitModel model hwobj
  have hkeep : ∀ key, key ≠ "tool_choice" → u.get? key = w.get? key := fun key hne =>
    hu ▸ get?_omitModel_of_ne model w hne
  have hkept : ∀ key, key ∉ samplingKeys → key ≠ "tool_choice" → u.get? key = v.get? key :=
    fun key hsampling hne =>
      (hkeep key hne).trans (hw ▸ get?_omitSampling_of_ne v hsampling hne)
  have hthinking : (lateSettings s u).get? "thinking" = v.get? "thinking" :=
    (get?_late_of_ne u (by decide) (by decide) (by decide)).trans
      (hkept _ (by decide) (by decide))
  have honv : thinkingOn (lateSettings s u) = thinkingOn v := thinkingOn_congr hthinking
  rw [hshape]
  constructor
  · exact isObject_late huobj
  · exact honv.trans hon
  · intro budget hsome
    exact (budgetTokens_congr hthinking).trans (hbudget budget hsome)
  · rw [maxTokensOf, late_maxTokens huobj, hkept _ (by decide) (by decide), ← hmax, maxTokensOf]
    rcases hnumber with hnone | ⟨n, hn⟩
    · rw [hnone]
      rfl
    · rw [hn]
      rfl
  · intro hthink key hkey
    have hne : ∀ other, other ∉ samplingKeys → key ≠ other := fun other hno heq => hno (heq ▸ hkey)
    rw [get?_late_of_ne u (hne _ (by decide)) (hne _ (by decide)) (hne _ (by decide)),
      hkeep _ (hne _ (by decide)), hw]
    exact omitSampling_sampled hwritten (honv ▸ hthink) key hkey
  · intro hthink
    have hoff : forcedKind w = false := hw ▸ omitSampling_forced hwritten (honv ▸ hthink)
    have hsame : u = w := by
      rw [hu, omitForcedToolChoiceRejectedByModel, hoff, Bool.and_false]
      rfl
    rw [forcedKind_congr (get?_late_of_ne u (by decide) (by decide) (by decide)), hsame]
    exact hoff

theorem unset_startBody (p : EncodedParts) : Unset (startBody p) := by
  have hother : ∀ key, key ≠ "system" → key ≠ "tools" → (startBody p).get? key =
      (Value.object [("model", .string p.model), ("messages", .array p.messages)]).get? key :=
    fun key hsystem htools => by
      rw [startBody, Value.get?_insertSome_of_ne _ _ htools, Value.get?_insertSome_of_ne _ _ hsystem]
  constructor
  · simp [startBody]
  · intro key hkey
    have hne : ∀ other, other ∉ readKeys → key ≠ other := fun other hno heq => hno (heq ▸ hkey)
    rw [hother key (hne _ (by decide)) (hne _ (by decide))]
    have hmodel := hne "model" (by decide)
    have hmessages := hne "messages" (by decide)
    simp [Value.get?, List.lookup_cons, beq_false_of_ne hmodel, beq_false_of_ne hmessages]

theorem thinkingBudgetOf_le (s : IrSampling) : thinkingBudgetOf s ≤ u32Max := by
  have heffort : ∀ effort, messagesEffortBudget effort ≤ u32Max := by
    intro effort
    unfold messagesEffortBudget
    split <;> decide
  unfold thinkingBudgetOf
  split
  · rename_i n _
    exact Nat.le_of_lt_succ n.toNat_lt
  · cases keptEffort s with
    | none =>
      rw [Option.map_none, Option.getD_none]
      decide
    | some effort =>
      rw [Option.map_some, Option.getD_some]
      exact heffort effort

theorem enabledBudget_le {budget : ℕ} (h : enabledBudget s = some budget) : budget ≤ u32Max := by
  unfold enabledBudget at h
  split at h
  · cases h
  · exact Option.some.inj h ▸ thinkingBudgetOf_le s

theorem budget_lt_written {budget : ℕ} (h : enabledBudget s = some budget) :
    budget < writtenMaxTokens s ↔ budget ≠ u32Max := by
  have hle := enabledBudget_le h
  rw [writtenMaxTokens, h]
  simp only
  split
  · simp only [satAdd, defaultCompletionTokens]
    omega
  · rename_i hhigh
    refine ⟨fun hlt heq => ?_, fun _ => not_le.mp hhigh⟩
    subst heq
    cases hmax : s.maxTokens with
    | none => simp [hmax] at hhigh
    | some n =>
      have hn := n.toNat_lt
      simp only [hmax, Option.map_some, Option.getD_some, u32Max] at hhigh
      omega

theorem one_le_written (h : s.maxTokens ≠ some 0) : 1 ≤ writtenMaxTokens s := by
  unfold writtenMaxTokens
  cases enabledBudget s with
  | some budget =>
    simp only
    split
    · simp only [satAdd, defaultCompletionTokens, u32Max]
      omega
    · omega
  | none =>
    cases hmax : s.maxTokens with
    | none => simp [defaultCompletionTokens]
    | some n =>
      have hne : n.toNat ≠ 0 := fun hzero => h (hmax.trans (congrArg some (UInt32.toNat_inj.mp hzero)))
      simp only [Option.map_some, Option.getD_some]
      omega

theorem encoded_readings {p : EncodedParts} {report report' : LossReport} {v : Value}
    (h : encode decimal p report = .ok (v, report')) :
    p.sampling.maxTokens ≠ some 0 ∧ ∃ u, Encoded p.sampling u ∧ readings v = readings u := by
  unfold encode at h
  split at h
  · cases h
  · rename_i hnone
    refine ⟨?_, encodeSampling decimal p.model p.sampling (startBody p),
      encoded_sampling p.model (unset_startBody p), ?_⟩
    · intro hzero
      have hsetting := (Option.or_eq_none_iff.mp hnone).2
      rw [settingError, if_pos hzero] at hsetting
      cases hsetting
    · have hbody := congrArg Prod.fst (Except.ok.inj h)
      exact (congrArg readings hbody.symm).trans (readings_applyCache _ _ _ _)

theorem get?_foldl_remove (keys : List String) (v : Value) (key : String) :
    (keys.foldl Value.remove v).get? key = if key ∈ keys then none else v.get? key := by
  induction keys generalizing v with
  | nil => simp
  | cons k rest ih =>
    rw [List.foldl_cons, ih]
    by_cases hk : key = k
    · subst hk
      simp [get?_remove_self]
    · rw [CredentialWriteback.get?_remove_of_ne v hk]
      simp [hk]

theorem get?_applyForbidden {fp : Fingerprint} {v w : Value} (h : applyForbiddenFields fp v = .ok w)
    (key : String) : w.get? key = if key ∈ fp.forbiddenBodyFields then none else v.get? key := by
  unfold applyForbiddenFields at h
  split at h
  · split at h
    · cases h
    · rename_i hnone
      obtain rfl := Except.ok.inj h
      split
      · rename_i hmem
        have habsent := List.find?_eq_none.mp hnone key hmem
        simpa using habsent
      · rfl
  · obtain rfl := Except.ok.inj h
    exact get?_foldl_remove fp.forbiddenBodyFields v key

/-- The constraints hold of the body that is sent exactly where the profile does
not strip `max_tokens` and no thinking object is sent with the greatest budget. -/
theorem thinking_constraints_kept (decimal : ℚ → ℚ) (fp : Fingerprint) (p : EncodedParts)
    (body : Value) (h : encodeRequest decimal fp p = .ok body) :
    ThinkingConstraints body ↔ ("max_tokens" ∉ fp.forbiddenBodyFields ∧
      (enabledBudget p.sampling = some u32Max → "thinking" ∈ fp.forbiddenBodyFields)) := by
  unfold encodeRequest at h
  rcases hencode : encode decimal p [] with err | ⟨v, report⟩
  · rw [hencode] at h
    cases h
  · rw [hencode] at h
    obtain ⟨hzero, u, hu, hreadings⟩ := encoded_readings hencode
    have hget := get?_applyForbidden (show applyForbiddenFields fp v = .ok body from h)
    have hv : (readings v).maxTokens = some (writtenMaxTokens p.sampling) := by
      rw [hreadings]
      exact hu.maxTokens
    constructor
    · intro hc
      have hmax : "max_tokens" ∉ fp.forbiddenBodyFields := by
        intro hmem
        obtain ⟨n, hn, _⟩ := hc.present
        rw [maxTokensOf, hget, if_pos hmem] at hn
        cases hn
      refine ⟨hmax, fun hbudget => ?_⟩
      by_contra hthinking
      have hsame : body.get? "thinking" = v.get? "thinking" := by rw [hget, if_neg hthinking]
      have hon : thinkingOn body = true := by
        rw [thinkingOn_congr hsame]
        exact (congrArg Readings.on hreadings).trans (hu.on.trans (by rw [hbudget]; rfl))
      obtain ⟨budget, n, hb, hn, hlt⟩ := hc.budget hon
      have hread : budgetTokens v = some u32Max :=
        (congrArg Readings.budget hreadings).trans (hu.budget _ hbudget)
      rw [budgetTokens_congr hsame, hread] at hb
      rw [maxTokensOf, hget, if_neg hmax] at hn
      obtain rfl := Option.some.inj hb
      obtain rfl := Option.some.inj (hv.symm.trans hn)
      exact (budget_lt_written hbudget).mp hlt rfl
    · rintro ⟨hmax, hbudget⟩
      have hmaxTokens : maxTokensOf body = some (writtenMaxTokens p.sampling) := by
        rw [maxTokensOf, hget, if_neg hmax]
        exact hv
      -- Thinking that is on was not stripped, so the body reads as it was encoded.
      have hthinking : thinkingOn body = true → "thinking" ∉ fp.forbiddenBodyFields := by
        intro hon hmem
        rw [thinkingOn, textAt, pointer?, hget, if_pos hmem] at hon
        cases hon
      have hvOn : thinkingOn body = true → thinkingOn v = true := by
        intro hon
        rwa [thinkingOn_congr (show body.get? "thinking" = v.get? "thinking" by
          rw [hget, if_neg (hthinking hon)])] at hon
      have huOn : thinkingOn body = true → thinkingOn u = true := fun hon =>
        (congrArg Readings.on hreadings).symm.trans (hvOn hon)
      have hallowed : thinkingOn body = true → (readings v).sampled = false ∧
          (readings v).forced = false := by
        intro hon
        rw [hreadings]
        refine ⟨?_, hu.choice (huOn hon)⟩
        exact (sampled_iff u).mpr (hu.sampling (huOn hon))
      constructor
      · intro hon
        have hsome : (enabledBudget p.sampling).isSome = true := hu.on.symm.trans (huOn hon)
        obtain ⟨budget, hb⟩ := Option.isSome_iff_exists.mp hsome
        refine ⟨budget, _, ?_, hmaxTokens, (budget_lt_written hb).mpr ?_⟩
        · rw [budgetTokens_congr (show body.get? "thinking" = v.get? "thinking" by
            rw [hget, if_neg (hthinking hon)])]
          exact (congrArg Readings.budget hreadings).trans (hu.budget _ hb)
        · rintro rfl
          exact hthinking hon (hbudget hb)
      · intro hon key hkey
        rw [hget, (sampled_iff v).mp (hallowed hon).1 key hkey, ite_self]
      · intro hon
        have hforced : forcedKind body = false := by
          by_cases hmem : "tool_choice" ∈ fp.forbiddenBodyFields
          · rw [forcedKind, textAt, pointer?, hget, if_pos hmem]
            rfl
          · rw [forcedKind_congr (show body.get? "tool_choice" = v.get? "tool_choice" by
              rw [hget, if_neg hmem])]
            exact (hallowed hon).2
        simp only [forcedKind, Bool.or_eq_false_iff, beq_eq_false_iff_ne] at hforced
        exact ⟨hforced.2, hforced.1⟩
      · exact ⟨_, hmaxTokens, one_le_written hzero⟩

/-- A request without items that asks for a budget. -/
def budgetRequest (budget : UInt32) : EncodedParts where
  model := "claude"
  messages := [.object [("role", "user"), ("content", .array [])]]
  system := none
  tools := []
  sampling := { maxReasoningTokens := some budget }
  dropped := []
  estimated := 0

theorem encodeRequest_budget (budget : UInt32) :
    ∃ body, encodeRequest id {} (budgetRequest budget) = .ok body := ⟨_, rfl⟩

theorem enabledBudget_budgetRequest (budget : UInt32) :
    enabledBudget (budgetRequest budget).sampling = some budget.toNat := rfl

theorem thinking_constraints_kept_small : ∃ body, encodeRequest id {} (budgetRequest 1024) = .ok body ∧
    ThinkingConstraints body := by
  obtain ⟨body, hbody⟩ := encodeRequest_budget 1024
  refine ⟨body, hbody, (thinking_constraints_kept id {} _ body hbody).mpr ⟨by decide, ?_⟩⟩
  intro hmax
  rw [enabledBudget_budgetRequest] at hmax
  exact absurd (Option.some.inj hmax) (by decide)

/-- With the greatest budget `max_tokens` equals it. -/
theorem greatest_budget_not_exceeded : ¬ ∀ (decimal : ℚ → ℚ) (p : EncodedParts) (body : Value),
    encodeRequest decimal {} p = .ok body → ThinkingConstraints body := by
  intro hall
  obtain ⟨body, hbody⟩ := encodeRequest_budget 4294967295
  have hbudget := enabledBudget_budgetRequest 4294967295
  rcases hencode : encode id (budgetRequest 4294967295) [] with err | ⟨v, report⟩
  · rw [encodeRequest, hencode] at hbody
    cases hbody
  · obtain ⟨_, u, hu, hreadings⟩ := encoded_readings hencode
    have hsent := hall id _ body hbody
    rw [encodeRequest, hencode] at hbody
    obtain rfl : v = body := Except.ok.inj hbody
    have hallowed := (constraints_iff v).mp hsent
    rw [hreadings] at hallowed
    obtain ⟨budget, n, hb, hn, hlt⟩ := hallowed.budget (hu.on.trans (by rw [hbudget]; rfl))
    obtain rfl := Option.some.inj ((hu.budget _ hbudget).symm.trans hb)
    obtain rfl := Option.some.inj (hu.maxTokens.symm.trans hn)
    exact (budget_lt_written hbudget).mp hlt (by decide)

end Wiremux.MessagesThinking
