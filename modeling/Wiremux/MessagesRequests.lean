import Wiremux.CacheFloor
import Wiremux.MessagesMarkers
import Wiremux.StrictSchemas

set_option autoImplicit false

/-!
# A whole Messages request

From the request to the body and the report: the prefix of the profile, the tools, the
items, the settings, the cache, and at last what the profile adds and takes away.
-/
namespace Wiremux.MessagesRequests
open JsonValue StreamEvents Completion Losses RequestParts MessagesItems ToolPreparation
open MessagesCache MessagesSampling MessagesThinking StrictSchemas

/-- Settings without a place in a Messages body, and those that only the report names. -/
structure OtherSettings where
  performanceLatency : Option String := none
  responseFieldPaths : List String := []
  additionalRequestFields : Option Value := none
  promptVariables : Option Value := none
  guardrail : Option Value := none
  truncation : Option String := none
  maxToolCalls : Option UInt32 := none
  background : Option Bool := none
  conversation : Option Value := none
  responsesContextManagement : Option Value := none
  store : Option Bool := none
  promptCacheKey : Option String := none
  promptCacheRetention : Option String := none
  promptCacheMode : Option String := none
  promptCacheTtl : Option String := none
  moderationModel : Option String := none
  moderationInput : Option String := none
  moderationOutput : Option String := none
  includeObfuscation : Option Bool := none
  logitBias : List (String × ℚ) := []
  prediction : Option Value := none
  webSearchOptions : Option Value := none
  topLogprobs : Option UInt32 := none
  logprobs : Option Bool := none
  frequencyPenalty : Option Single := none
  presencePenalty : Option Single := none
  seed : Option ℤ := none
  n : Option UInt32 := none
  mediaResolution : Option String := none
  imageConfig : Option Value := none
  audioTranscriptionConfig : Option Value := none
  translationConfig : Option Value := none
  affectiveDialog : Option Bool := none
  enhancedCivicAnswers : Option Bool := none
  multiSpeakerSpeech : Option Value := none
  cachedContent : Option String := none
  safetySettings : Option Value := none
  requestLabels : Option Value := none
  outputModalities : List String := []
  audioVoice : Option String := none
  audioFormat : Option String := none
  verbosity : Option String := none
  safetyIdentifier : Option String := none
  metadata : List (String × String) := []
  previousResponseId : Option String := none
  jsonSchemaName : Option String := none
  jsonSchemaStrict : Option Bool := none
  jsonSchemaDescription : Option String := none
  jsonObject : Option Bool := none
  includes : List String := []

structure IrRequest where
  model : String
  items : List IrItem := []
  tools : List IrTool := []
  sampling : IrSampling := {}
  others : OtherSettings := {}

structure Fingerprint extends MessagesSampling.Fingerprint where
  systemPromptPrefix : Option String := none
  toolNameCase : Option ToolNameCase := none
  extraBody : List (String × Value) := []
  extraOnce : (extraBody.map Prod.fst).Nodup := by decide

structure ResolvedProfile where
  toolTypePolicy : ToolTypePolicy := .hardError
  fingerprint : Option Fingerprint := none

def noteIf (present : Bool) (event : LossEvent) : LossReport := if present then [event] else []

def noSlots (fields : List (String × Bool)) : LossReport :=
  fields.flatMap fun field => noteIf field.2 (dropped ("sampling." ++ field.1) "no slot")

def dropResponsesRequestFields (o : OtherSettings) : LossReport :=
  noSlots [("truncation", o.truncation.any fun text => !isBlank text),
    ("max_tool_calls", o.maxToolCalls.isSome), ("background", o.background.isSome),
    ("conversation", o.conversation.isSome),
    ("responses_context_management", o.responsesContextManagement.isSome)]

def keptStopLosses (stop : List String) : LossReport :=
  stop.flatMap fun text => noteIf text.isEmpty (dropped "sampling.stop" "stop sequence is empty")

def disableParallelLosses (parallel : Option Bool) (body : Value) : LossReport :=
  noteIf (parallel.any fun on => !on || (body.get? "tool_choice").any Value.isObject)
    ⟨"sampling.parallel_tool_calls", .preserve, "messages disable_parallel_tool_use"⟩

def dropDestChatSamplingExtras (o : OtherSettings) : LossReport :=
  noSlots [("prompt_cache_mode", o.promptCacheMode.isSome), ("prompt_cache_ttl", o.promptCacheTtl.isSome),
    ("moderation_model", o.moderationModel.isSome), ("moderation_input", o.moderationInput.isSome),
    ("moderation_output", o.moderationOutput.isSome),
    ("include_obfuscation", o.includeObfuscation.isSome), ("logit_bias", !o.logitBias.isEmpty),
    ("prediction", o.prediction.isSome), ("web_search_options", o.webSearchOptions.isSome)]

def dropDestNAndPenalties (o : OtherSettings) : LossReport :=
  noSlots [("frequency_penalty", o.frequencyPenalty.isSome),
    ("presence_penalty", o.presencePenalty.isSome), ("seed", o.seed.isSome), ("n", o.n.isSome),
    ("media_resolution", o.mediaResolution.isSome), ("image_config", o.imageConfig.isSome),
    ("audio_transcription_config", o.audioTranscriptionConfig.isSome),
    ("translation_config", o.translationConfig.isSome), ("affective_dialog", o.affectiveDialog.isSome),
    ("enhanced_civic_answers", o.enhancedCivicAnswers.isSome),
    ("multi_speaker_speech", o.multiSpeakerSpeech.isSome), ("cached_content", o.cachedContent.isSome),
    ("safety_settings", o.safetySettings.isSome), ("request_labels", o.requestLabels.isSome)]

def dropDestOutputModalities (o : OtherSettings) : LossReport :=
  noSlots [("output_modalities", !o.outputModalities.isEmpty), ("audio_voice", o.audioVoice.isSome),
    ("audio_format", o.audioFormat.isSome)]

def serviceTierEvent (tier : String) : LossReport :=
  match asciiLower (trim tier) with
  | "auto" => []
  | "standard_only" => []
  | "default" => [⟨"sampling.service_tier", .degrade, "default maps to standard_only"⟩]
  | "standard" => [⟨"sampling.service_tier", .degrade, "standard maps to standard_only"⟩]
  | _ => [dropped "sampling.service_tier" "unmapped service_tier"]

def serviceTierLosses (tier : Option String) : LossReport :=
  ((keptText tier).filter fun text => asciiLower text != "unspecified").toList.flatMap serviceTierEvent

def plainLosses (s : IrSampling) (o : OtherSettings) (body : Value) : LossReport :=
  noSlots [("performance_latency", o.performanceLatency.isSome),
    ("response_field_paths", !o.responseFieldPaths.isEmpty),
    ("additional_request_fields", o.additionalRequestFields.isSome),
    ("prompt_variables", o.promptVariables.isSome), ("guardrail", o.guardrail.isSome)] ++
  (dropResponsesRequestFields o ++ (keptStopLosses s.stop ++
  (disableParallelLosses s.parallelToolCalls body ++
  (noSlots [("store", o.store.isSome), ("prompt_cache_key", o.promptCacheKey.isSome),
    ("prompt_cache_retention", o.promptCacheRetention.isSome)] ++
  (dropDestChatSamplingExtras o ++
  (noSlots [("top_logprobs", o.topLogprobs.isSome), ("logprobs", o.logprobs.isSome)] ++
  (dropDestNAndPenalties o ++ (dropDestOutputModalities o ++
  (noSlots [("verbosity", o.verbosity.isSome), ("safety_identifier", o.safetyIdentifier.isSome),
    ("metadata", !o.metadata.isEmpty)] ++
  (serviceTierLosses s.serviceTier ++
    noteIf o.previousResponseId.isSome
      ⟨"sampling.previous_response_id", .degrade, "drop id, rebuild full input"⟩))))))))))

/-- The settings that a thinking object of the client, or none, leaves without a place. -/
def unusedThinking (s : IrSampling) (why : String) : LossReport :=
  noteIf s.maxReasoningTokens.isSome (dropped "sampling.max_reasoning_tokens" why) ++
    noteIf s.thinkingBudget.isSome (dropped "sampling.thinking_budget" why)

def nativeThinkingLosses (s : IrSampling) : LossReport :=
  ⟨"sampling.messages_thinking", .preserve, "messages thinking"⟩ ::
    (noteIf s.includeThoughts.isSome (dropped "sampling.include_thoughts" "native thinking object") ++
      (unusedThinking s "native thinking object" ++ noteIf (keptEffort s).isSome
        (if s.includeThoughts = some false then
          dropped "sampling.reasoning_effort" "thinking disabled"
        else ⟨"sampling.reasoning_effort", .preserve, "messages output_config.effort"⟩)))

def disabledThinkingLosses (s : IrSampling) : LossReport :=
  ⟨"sampling.include_thoughts", .preserve, "messages thinking"⟩ ::
    (noteIf (keptEffort s).isSome (dropped "sampling.reasoning_effort" "thinking disabled") ++
      unusedThinking s "thinking disabled")

def enabledThinkingLosses (s : IrSampling) (current : ℕ) : LossReport :=
  noteIf (s.includeThoughts == some true)
    ⟨"sampling.include_thoughts", .preserve, "messages thinking"⟩ ++
  ((if s.maxReasoningTokens.isSome then
    ⟨"sampling.max_reasoning_tokens", .preserve, "messages thinking.budget_tokens"⟩ ::
      noteIf (s.thinkingBudget.any fun n => n.toNat != thinkingBudgetOf s)
        ⟨"sampling.thinking_budget", .degrade, "max_reasoning_tokens wins budget_tokens"⟩
  else noteIf s.thinkingBudget.isSome
    ⟨"sampling.thinking_budget", .preserve, "messages thinking.budget_tokens"⟩) ++
  (noteIf (keptEffort s).isSome ⟨"sampling.reasoning_effort", .preserve, "messages thinking"⟩ ++
    noteIf (decide (current ≤ thinkingBudgetOf s))
      ⟨"sampling.max_tokens", .degrade, "raised above thinking.budget_tokens"⟩))

def thinkingLosses (s : IrSampling) (body : Value) : LossReport :=
  if (nativeThinking s).isSome then nativeThinkingLosses s
  else noteIf s.messagesThinking.isSome
    (dropped "sampling.messages_thinking" "not adaptive or between_tools") ++
    (if s.includeThoughts = some false then disabledThinkingLosses s
    else if wantsEnable s = false then []
    else enabledThinkingLosses s ((maxTokensOf body).getD 0 % (u32Max + 1)))

def rejectedLosses (s : IrSampling) (body : Value) : LossReport :=
  if thinkingOn body then
    noteIf s.temperature.isSome (dropped "sampling.temperature" "thinking omits temperature") ++
    (noteIf s.topP.isSome (dropped "sampling.top_p" "thinking omits top_p") ++
    (noteIf s.topK.isSome (dropped "sampling.top_k" "thinking omits top_k") ++
      noteIf (isForced s.toolChoice)
        ⟨"sampling.tool_choice", .degrade, "thinking forces tool_choice auto"⟩))
  else []

def outputConfigLosses (s : IrSampling) (o : OtherSettings) : LossReport :=
  match s.jsonSchema with
  | none => []
  | some schema =>
    if schema.isObject then
      ⟨"sampling.json_schema", .preserve, "messages output_config.format"⟩ ::
        noteIf o.jsonSchemaName.isSome
          (dropped "sampling.json_schema_name" "messages output_config.format has no name")
    else [dropped "sampling.json_schema" "json_schema requires object schema"]

/-- What is noted behind the tool choice; `body` is the one so far. -/
def lateLosses (s : IrSampling) (o : OtherSettings) (body : Value) : LossReport :=
  noSlots [("json_schema_strict", o.jsonSchemaStrict.isSome),
    ("json_schema_description", o.jsonSchemaDescription.isSome)] ++
  (noteIf (body.get? "max_tokens").isNone
    ⟨"sampling.max_tokens", .degrade, "messages requires max_tokens"⟩ ++
  (noSlots [("include", !o.includes.isEmpty)] ++ (outputConfigLosses s o ++
    noSlots [("json_object", o.jsonObject == some true)])))

/-- A step on the body and the report that depends on the model. -/
abbrev ChoiceStep := String → Value → LossReport → Value × LossReport

def modelForcesToolChoiceAuto : String := "model forces tool_choice auto"

/-- `omit_forced_tool_choice_rejected_by_model`. -/
def omitForced : ChoiceStep := fun model body report =>
  if rejectsForcedToolChoice model && forcedKind body then
    (omitForcedToolChoiceRejectedByModel model body,
      record report "sampling.tool_choice" .degrade modelForcesToolChoiceAuto)
  else (body, report)

def keepForced : ChoiceStep := fun _ body report => (body, report)

section Encoders
variable (sj : SerdeJson) (cc : CharCase) (decimal : ℚ → ℚ) (step : ChoiceStep)

def encodeSettings (model : String) (s : IrSampling) (o : OtherSettings) (body : Value)
    (report : LossReport) : Value × LossReport :=
  let plain := plainSettings decimal s body
  let thinking := encodeThinking s plain
  let chosen := step model (omitSamplingRejectedByThinking s thinking)
    (report ++ (plainLosses s o (encodeToolChoice s.toolChoice body) ++
      (thinkingLosses s plain ++ rejectedLosses s thinking)))
  (lateSettings s chosen.1, chosen.2 ++ lateLosses s o chosen.1)

def encodeParts (p : EncodedParts) (o : OtherSettings) (report : LossReport) :
    Except MapError (Value × LossReport) :=
  match (emptyError p).or (settingError p.sampling) with
  | some err => .error err
  | none =>
    let set := encodeSettings decimal step p.model p.sampling o (startBody p) report
    .ok (applyCacheBreakpoints set.1 p.sampling.cache p.estimated set.2)

def prefixed (pre : String) (r : RoleText) : RoleText :=
  { r with text := if pre.toList.isPrefixOf r.text.toList then r.text else pre ++ r.text }

/-- The items with the first system item rewritten, when there is one. -/
def prefixFirst (pre : String) : List IrItem → Option (List IrItem)
  | [] => none
  | .system r :: rest => some (.system (prefixed pre r) :: rest)
  | item :: rest => (prefixFirst pre rest).map (item :: ·)

def applySystemPrefix (profile : ResolvedProfile) (items : List IrItem) : List IrItem :=
  match (profile.fingerprint.bind (·.systemPromptPrefix)).filter fun pre => !pre.isEmpty with
  | none => items
  | some pre => (prefixFirst pre items).getD (.system ⟨pre, none, []⟩ :: items)

def stripOrRefuseStore (profile : ResolvedProfile) (o : OtherSettings) :
    Except MapError (OtherSettings × LossReport) :=
  match profile.fingerprint with
  | none => .ok (o, [])
  | some fp =>
    if o.store.isNone || !fp.forbiddenBodyFields.contains "store" then .ok (o, [])
    else
      match fp.forbiddenFieldPolicy with
      | .hardError => .error (.hardError "sampling.store" "forbidden body field `store`")
      | .strip =>
        .ok ({ o with store := none }, [dropped "sampling.store" "forbidden_body_fields strip"])

def strictLoss (path : String) (strict : Option Bool) : LossReport :=
  noteIf strict.isSome (dropped (path ++ ".strict") "no slot")

def flatStrictLoss (path : String) : PreparedTool → LossReport
  | .function f => strictLoss path f.strict
  | .raw _ => []

def toolLosses (policy : ToolTypePolicy) (path : String) (tool : IrTool)
    (prepared : List PreparedTool) : LossReport :=
  match tool with
  | .function f => strictLoss path f.strict
  | .namespaceTool _ _ =>
    if policy = .passthrough then [⟨path, .preserve, "namespace passthrough"⟩]
    else ⟨path, .degrade, "flatten namespace to dotted function tools"⟩ ::
      prepared.flatMap (flatStrictLoss path)
  | .hosted _ _ => [⟨path, .preserve, "hosted passthrough"⟩]
  | .cachePoint _ => [dropped path "tool cache point has no slot"]
  | .unknown typeName _ =>
    if typeName = "systemTool" then [dropped path "system tool has no slot"]
    else if typeName = "custom" then [⟨path, .degrade, "custom tool became a function tool"⟩]
    else [⟨path, .preserve, "unknown tool passthrough"⟩]

def preparedLosses (policy : ToolTypePolicy) (prepared : List (IrTool × List PreparedTool)) :
    LossReport :=
  prepared.zipIdx.flatMap fun entry =>
    toolLosses policy ("tools[" ++ toString entry.2 ++ "]") entry.1.1 entry.1.2

def inputSchema (strict : Option Bool) (parameters : Value) : Value :=
  if strict = some true then strictParameters parameters
  else normalizeObjectSchemaRequired parameters

def encodeTool : PreparedTool → Value
  | .function f => encodeFunctionTool inputSchema .messages f
  | .raw raw =>
    match raw.get? "input_schema" with
    | some schema => raw.insert "input_schema" (normalizeObjectSchemaRequired schema)
    | none => raw

def droppedDetails (report : LossReport) : List String :=
  (report.filter fun event => event.action == .drop).map (·.detail)

def mergeExtraBody (extra : List (String × Value)) (body : Value) : Value :=
  extra.foldl (fun body field => body.insert field.1 field.2) body

def stripLosses : List String → Value → LossReport
  | [], _ => []
  | key :: rest, body =>
    noteIf (body.get? key).isSome (dropped key "forbidden_body_fields strip") ++
      stripLosses rest (body.remove key)

def finishBody (profile : ResolvedProfile) (encoded : Value × LossReport) :
    Except MapError (Value × LossReport) :=
  match profile.fingerprint with
  | none => .ok encoded
  | some fp =>
    let body := mergeExtraBody fp.extraBody encoded.1
    match applyForbiddenFields fp.toFingerprint body with
    | .error err => .error err
    | .ok sent => .ok (sent, encoded.2 ++ stripLosses fp.forbiddenBodyFields body)

def encodedParts (ir : IrRequest) (profile : ResolvedProfile) (tools : List PreparedTool)
    (report : LossReport) : EncodedParts × LossReport :=
  let items := applySystemPrefix profile ir.items
  let encoded := encodeTurns sj items
  let report := report ++ encoded.report
  ({ model := ir.model
     messages := encoded.messages.map Message.toJson
     system := systemOf encoded.system
     tools := tools.map encodeTool
     sampling := ir.sampling
     dropped := droppedDetails report
     estimated := CacheFloor.cacheFloorTokens sj items ir.tools }, report)

def encodeWith (ir : IrRequest) (profile : ResolvedProfile) : Except MapError (Value × LossReport) :=
  match stripOrRefuseStore profile ir.others with
  | .error err => .error err
  | .ok (others, report) =>
    match prepareFrom cc .messages profile.toolTypePolicy
        (profile.fingerprint.bind (·.toolNameCase)) 0 ir.tools with
    | .error err => .error err
    | .ok prepared =>
      let parts := encodedParts sj ir profile (prepared.flatMap Prod.snd)
        (report ++ preparedLosses profile.toolTypePolicy prepared)
      match encodeParts decimal step parts.1 others parts.2 with
      | .error err => .error err
      | .ok encoded => finishBody profile encoded

def encode (ir : IrRequest) (profile : ResolvedProfile) : Except MapError (Value × LossReport) :=
  encodeWith sj cc decimal omitForced ir profile

end Encoders

end Wiremux.MessagesRequests
