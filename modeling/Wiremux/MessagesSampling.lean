import Wiremux.FrameDecoding
import Wiremux.MessagesCache

set_option autoImplicit false

/-!
# The settings of a Messages request

The body of a request after its items and tools are encoded: the sampling, the
thinking budget, the tool choice and the cache breakpoints are written into it.
What the settings lose is not reported here.
-/
namespace Wiremux.MessagesSampling
open JsonValue StreamEvents Completion FrameDecoding MessagesCache Losses

inductive IrToolChoice where
  | auto
  | none
  | required
  | named (name : String)

inductive Single where
  | finite (q : ℚ)
  | notFinite

structure IrSampling where
  temperature : Option Single := none
  topP : Option Single := none
  topK : Option UInt32 := none
  maxTokens : Option UInt32 := none
  stop : List String := []
  toolChoice : IrToolChoice := .auto
  parallelToolCalls : Option Bool := none
  cache : IrCache := {}
  stream : Option Bool := none
  includeThoughts : Option Bool := none
  thinkingBudget : Option UInt32 := none
  reasoningEffort : Option String := none
  maxReasoningTokens : Option UInt32 := none
  messagesThinking : Option Value := none
  jsonSchema : Option Value := none
  user : Option String := none
  serviceTier : Option String := none
  inferenceGeo : Option String := none
  previousMessageId : Option String := none
  container : Option Value := none
  contextManagement : Option Value := none
  mcpServers : Option Value := none

/-- The request as the settings see it: items and tools are already encoded,
`dropped` is what the items lost, `estimated` the estimate for the cache floor. -/
structure EncodedParts where
  model : String
  messages : List Value
  system : Option Value
  tools : List Value
  sampling : IrSampling
  dropped : List String
  estimated : ℕ

def num (n : UInt32) : Value := .number (.posInt n.toNat)

def jsonF32 (decimal : ℚ → ℚ) : Single → Value
  | .finite q => .number (.float (decimal q))
  | .notFinite => .null

def keptText (text : Option String) : Option String := nonempty (text.map trim)

def keptStop (stop : List String) : List String := stop.filter fun text => !text.isEmpty

def messagesServiceTier (tier : String) : Option String :=
  match asciiLower (trim tier) with
  | "auto" => some "auto"
  | "standard_only" => some "standard_only"
  | "default" => some "standard_only"
  | "standard" => some "standard_only"
  | _ => none

def encodedServiceTier (tier : Option String) : Option String :=
  ((keptText tier).filter fun text => asciiLower text != "unspecified").bind messagesServiceTier

def toolChoiceValue : IrToolChoice → Option Value
  | .auto => none
  | .none => some (.object [("type", "none")])
  | .required => some (.object [("type", "any")])
  | .named name => some (.object [("type", "tool"), ("name", .string name)])

def encodeToolChoice (choice : IrToolChoice) (body : Value) : Value :=
  body.insertSome "tool_choice" (toolChoiceValue choice)

def disableParallel (choice : Option Value) (parallel : Option Bool) : Option Value :=
  match parallel, choice.filter Value.isObject with
  | none, _ => choice
  | some true, some choice => some (choice.insert "disable_parallel_tool_use" (.bool false))
  | some true, none => choice
  | some false, choice =>
    some ((choice.getD (.object [("type", "auto")])).insert "disable_parallel_tool_use" (.bool true))

def encodeDisableParallelToolUse (parallel : Option Bool) (body : Value) : Value :=
  body.insertSome "tool_choice" (disableParallel (body.get? "tool_choice") parallel)

def defaultCompletionTokens : ℕ := 4096

def defaultThinkingBudget : ℕ := 10240

def messagesEffortBudget (effort : String) : ℕ :=
  match asciiLower (trim effort) with
  | "low" => 4096
  | "high" => 32768
  | "xhigh" => 65536
  | "x-high" => 65536
  | _ => defaultThinkingBudget

/-- A thinking object of the client that is kept as it is. -/
def nativeThinking (s : IrSampling) : Option Value :=
  s.messagesThinking.filter fun thinking =>
    (thinking.strAt? "type").any fun kind => trim kind == "adaptive" || trim kind == "between_tools"

def keptEffort (s : IrSampling) : Option String := s.reasoningEffort.filter fun t => !isBlank t

def wantsEnable (s : IrSampling) : Bool :=
  s.includeThoughts == some true || (keptEffort s).isSome || s.maxReasoningTokens.isSome ||
    s.thinkingBudget.isSome

/-- The budget of the first setting that names one. -/
def thinkingBudgetOf (s : IrSampling) : ℕ :=
  match s.maxReasoningTokens.or s.thinkingBudget with
  | some n => n.toNat
  | none => ((keptEffort s).map messagesEffortBudget).getD defaultThinkingBudget

/-- The budget that is written, when thinking is enabled. -/
def enabledBudget (s : IrSampling) : Option ℕ :=
  if (nativeThinking s).isSome || s.includeThoughts == some false || !wantsEnable s then none
  else some (thinkingBudgetOf s)

def enabledThinking (budget : ℕ) : Value :=
  .object [("type", "enabled"), ("budget_tokens", .number (.posInt budget))]

def raisedMaxTokens (current budget : ℕ) (body : Value) : Value :=
  if current ≤ budget then
    body.insert "max_tokens" (.number (.posInt (satAdd budget defaultCompletionTokens)))
  else body

def maxTokensOf (body : Value) : Option ℕ := (body.get? "max_tokens").bind Value.asU64?

def encodeThinking (s : IrSampling) (body : Value) : Value :=
  match nativeThinking s with
  | some native => body.insert "thinking" native
  | none =>
    if s.includeThoughts = some false then
      body.insert "thinking" (.object [("type", "disabled")])
    else if wantsEnable s = false then body
    else
      let budget := thinkingBudgetOf s
      let body := body.insert "thinking" (enabledThinking budget)
      raisedMaxTokens ((maxTokensOf body).getD 0 % (u32Max + 1)) budget body

def thinkingOn (body : Value) : Bool := textAt body ["thinking", "type"] == some "enabled"

def removeIf (present : Bool) (key : String) (body : Value) : Value :=
  if present then body.remove key else body

def asAuto (choice : Value) : Value := (choice.insert "type" "auto").remove "name"

def isForced : IrToolChoice → Bool
  | .required => true
  | .named _ => true
  | _ => false

def omitForcedChoice (choice : IrToolChoice) (body : Value) : Value :=
  if isForced choice then
    body.insert "tool_choice" (((body.get? "tool_choice").filter Value.isObject).elim
      (.object [("type", "auto")]) asAuto)
  else body

def omitSamplingRejectedByThinking (s : IrSampling) (body : Value) : Value :=
  if thinkingOn body then
    omitForcedChoice s.toolChoice
      (removeIf s.topK.isSome "top_k" (removeIf s.topP.isSome "top_p"
        (removeIf s.temperature.isSome "temperature" body)))
  else body

def forcedToolRejectingFamilies : List String :=
  ["claude-opus-5-5", "claude-sonnet-5-5", "claude-fable-5-1", "claude-mythos-5-1"]

/-- The text before the first occurrence of `sep`, and the text after it. -/
def splitOnce (sep : List Char) : List Char → Option (List Char × List Char)
  | [] => if sep.isEmpty then some ([], []) else none
  | c :: rest =>
    if sep.isPrefixOf (c :: rest) then some ([], (c :: rest).drop sep.length)
    else (splitOnce sep rest).map fun halves => (c :: halves.1, halves.2)

def anthropicProviderRest (id : List Char) : Option (List Char) :=
  (splitOnce "anthropic.".toList id).bind fun halves =>
    if halves.1.isEmpty then some halves.2
    else if halves.1.getLast? = some '.' ∧ halves.1.dropLast ≠ [] ∧ '.' ∉ halves.1.dropLast then
      some halves.2
    else none

def messagesModelStem (model : String) : String :=
  let segment := trim (String.ofList (model.toList.reverse.takeWhile (· ≠ '/')).reverse)
  let id := (asciiLower segment).toList
  let id := (anthropicProviderRest id).getD id
  match splitOnce ['@'] id with
  | some (stem, _) => trim (String.ofList stem)
  | none => String.ofList id

def rejectsForcedToolChoice (model : String) : Bool :=
  let stem := (messagesModelStem model).toList
  forcedToolRejectingFamilies.any fun family =>
    stem == family.toList || (family.toList ++ ['-']).isPrefixOf stem

def forcedKind (body : Value) : Bool :=
  let kind := textAt body ["tool_choice", "type"]
  kind == some "tool" || kind == some "any"

def omitForcedToolChoiceRejectedByModel (model : String) (body : Value) : Value :=
  if rejectsForcedToolChoice model && forcedKind body then
    body.insertSome "tool_choice"
      (((body.get? "tool_choice").filter Value.isObject).map asAuto)
  else body

def plainSettings (decimal : ℚ → ℚ) (s : IrSampling) (body : Value) : Value :=
  let body := body.insertSome "temperature" (s.temperature.map (jsonF32 decimal))
  let body := body.insertSome "top_p" (s.topP.map (jsonF32 decimal))
  let body := body.insertSome "top_k" (s.topK.map num)
  let body := body.insertSome "inference_geo" ((keptText s.inferenceGeo).map .string)
  let body := body.insertSome "diagnostics"
    (s.previousMessageId.map fun id => .object [("previous_message_id", .string id)])
  let body := body.insertSome "container" s.container
  let body := body.insertSome "context_management" s.contextManagement
  let body := body.insertSome "mcp_servers" s.mcpServers
  let body := body.insertSome "max_tokens" (s.maxTokens.map num)
  let body := body.insertSome "stop_sequences"
    (if keptStop s.stop = [] then none else some (.array ((keptStop s.stop).map .string)))
  let body := encodeDisableParallelToolUse s.parallelToolCalls (encodeToolChoice s.toolChoice body)
  let body := body.insertSome "service_tier" ((encodedServiceTier s.serviceTier).map .string)
  body.insertSome "stream" (s.stream.map .bool)

def outputConfig (s : IrSampling) : Value :=
  let effort := if s.includeThoughts = some false then none else keptText s.reasoningEffort
  ((Value.object []).insertSome "effort" (effort.map .string)).insertSome "format"
    ((s.jsonSchema.filter Value.isObject).map fun schema =>
      .object [("type", "json_schema"), ("schema", schema)])

def encodeOutputConfig (s : IrSampling) (body : Value) : Value :=
  match outputConfig s with
  | .object [] => body
  | config => body.insert "output_config" config

def lateSettings (s : IrSampling) (body : Value) : Value :=
  let body :=
    if (body.get? "max_tokens").isNone then
      body.insert "max_tokens" (.number (.posInt defaultCompletionTokens))
    else body
  let body := encodeOutputConfig s body
  body.insertSome "metadata"
    ((keptText s.user).map fun user => .object [("user_id", .string user)])

def encodeSampling (decimal : ℚ → ℚ) (model : String) (s : IrSampling) (body : Value) : Value :=
  lateSettings s (omitForcedToolChoiceRejectedByModel model
    (omitSamplingRejectedByThinking s (encodeThinking s (plainSettings decimal s body))))

def startBody (p : EncodedParts) : Value :=
  ((Value.object [("model", .string p.model), ("messages", .array p.messages)]).insertSome "system"
    p.system).insertSome "tools" (if p.tools = [] then none else some (.array p.tools))

def emptyError (p : EncodedParts) : Option MapError :=
  if p.messages ≠ [] then none
  else if p.system.isSome then
    some (.invalid "messages must not be empty: system text needs a message turn")
  else if p.dropped ≠ [] then
    some (.invalid ("messages must not be empty: " ++ "; ".intercalate p.dropped))
  else none

def outOfUnit : Option Single → Bool
  | none => false
  | some .notFinite => true
  | some (.finite q) => q < 0 || 1 < q

def settingError (s : IrSampling) : Option MapError :=
  if s.maxTokens = some 0 then
    some (.hardError "sampling.max_tokens" "max_tokens must be at least 1")
  else if outOfUnit s.temperature then
    some (.hardError "sampling.temperature" "temperature must be between 0 and 1")
  else if outOfUnit s.topP then some (.hardError "sampling.top_p" "top_p must be between 0 and 1")
  else none

def encode (decimal : ℚ → ℚ) (p : EncodedParts) (report : LossReport) :
    Except MapError (Value × LossReport) :=
  match (emptyError p).or (settingError p.sampling) with
  | some err => .error err
  | none => .ok (applyCacheBreakpoints
      (encodeSampling decimal p.model p.sampling (startBody p)) p.sampling.cache p.estimated report)

inductive ForbiddenFieldPolicy where
  | hardError
  | strip
deriving DecidableEq

/-- The fingerprint of a profile without extra body. -/
structure Fingerprint where
  forbiddenBodyFields : List String := []
  forbiddenFieldPolicy : ForbiddenFieldPolicy := .hardError

def applyForbiddenFields (fp : Fingerprint) (body : Value) : Except MapError Value :=
  match fp.forbiddenFieldPolicy with
  | .hardError =>
    match fp.forbiddenBodyFields.find? fun key => (body.get? key).isSome with
    | some key => .error (.hardError key ("forbidden body field `" ++ key ++ "`"))
    | none => .ok body
  | .strip => .ok (fp.forbiddenBodyFields.foldl Value.remove body)

/-- The body that is sent for a profile without extra body. -/
def encodeRequest (decimal : ℚ → ℚ) (fp : Fingerprint) (p : EncodedParts) : Except MapError Value :=
  match encode decimal p [] with
  | .error err => .error err
  | .ok (body, _) => applyForbiddenFields fp body

end Wiremux.MessagesSampling
