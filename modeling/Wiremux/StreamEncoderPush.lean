import Wiremux.ChatEncoder
import Wiremux.ConverseEncoder
import Wiremux.GeminiEncoder
import Wiremux.MessagesEncoder
import Wiremux.ResponsesEncoder

set_option autoImplicit false

/-!
# `StreamEncoder::push` and `finish`

The side-channel `Protocol` events are grouped by the wire that reads them; on
another wire they send nothing. What no group takes is copied verbatim.
-/
namespace Wiremux.StreamEncoderPush
open JsonValue StreamEvents StreamEventEncoding StreamEventFrames EmittingRuns EncoderState
open MessagesEncoder ResponsesEncoder ChatEncoder ConverseEncoder GeminiEncoder

/-- Record on the wire that reads the event, if the payload has the right form. -/
def note {α : Type} (wire : Wire) (read : Option α) (set : α → StreamEncoder → StreamEncoder)
    (s : StreamEncoder) : List RawSse × StreamEncoder :=
  match read with
  | some x => if s.wire = wire then ([], set x s) else ([], s)
  | none => ([], s)

def noteChat {α : Type} (read : Option α) (set : α → ChatSide → ChatSide) :
    StreamEncoder → List RawSse × StreamEncoder :=
  note .chatCompletions read (fun x s => { s with chat := set x s.chat })

def noteMessages {α : Type} (read : Option α) (set : α → MessagesSide → MessagesSide) :
    StreamEncoder → List RawSse × StreamEncoder :=
  note .messages read (fun x s => { s with messages := set x s.messages })

def noteResponses {α : Type} (read : Option α) (set : α → ResponsesSide → ResponsesSide) :
    StreamEncoder → List RawSse × StreamEncoder :=
  note .responses read (fun x s => { s with responses := set x s.responses })

def noteGemini {α : Type} (read : Option α) (set : α → GeminiSide → GeminiSide) :
    StreamEncoder → List RawSse × StreamEncoder :=
  note .gemini read (fun x s => { s with gemini := set x s.gemini })

def objectPayload (payload : Value) : Option Value :=
  if payload.isObject then some payload else none

def nonEmptyArrayPayload (payload : Value) : Option Value :=
  if payload.isNonEmptyArray then some payload else none

def trimmedPayload (payload : Value) : Option String :=
  (payload.asStr?.map trim).filter (fun t => !t.isEmpty)

def agentPayload (payload : Value) : Option Value :=
  if ((payload.strAt? "agent_name").any (fun name => !name.isEmpty)) then some payload else none

/-- A citation opens a text block whether or not `message_start` was sent. -/
def messagesCitation (sj : SerdeJson) (payload : Value) (s : StreamEncoder) :
    List RawSse × StreamEncoder :=
  if s.wire ≠ .messages ∨ payload.isObject = false then ([], s)
  else blockDelta sj .text (citationsDeltaBody payload) s

/-- Record one reasoning field, then open the reasoning item when any is known. -/
def responsesReasoning {α : Type} (read : Option α) (set : α → ResponsesSide → ResponsesSide)
    (s : StreamEncoder) : List RawSse × StreamEncoder :=
  if s.wire ≠ .responses then ([], s)
  else
    let s := (noteResponses read set s).2
    if s.responses.reasoningId.isSome || s.responses.reasoningStatus.isSome ||
        s.responses.reasoningContent.isSome then ensureItem .thinking s
    else ([], s)

def geminiCodeKeys : List String :=
  ["executableCode", "codeExecutionResult", "functionResponse", "toolCall", "toolResponse",
    "fileData"]

def geminiCodePart (payload : Value) (s : StreamEncoder) : List RawSse × StreamEncoder :=
  if s.wire = .gemini ∧ geminiCodeKeys.any (fun key => (payload.get? key).isSome) then
    ([attachDestModel s (unnamed (geminiPart payload))], s)
  else ([], s)

def converseRedactedContent (payload : Value) (s : StreamEncoder) :
    List RawSse × StreamEncoder :=
  match nonEmptyStr? payload with
  | some blob =>
    if s.wire = .converse then
      ([unnamed (.object [("contentBlockDelta", .object [("contentBlockIndex", 0),
        ("delta", .object [("reasoningContent", .object [("redactedContent", .string blob)])])])])],
        s)
    else ([], s)
  | none => ([], s)

/-- What an event of a known type does; `none` for an event of another type. -/
abbrev SideChannel := Option (StreamEncoder → List RawSse × StreamEncoder)

def chatProtocol (wire : Wire) (itemType : String) (payload : Value) : SideChannel :=
  match itemType with
  | "chat_completion_id" =>
    if wire = .chatCompletions then
      some (noteChat (nonBlankStr? payload) (fun t c => { c with completionId := some t }))
    else none
  | "chat_accepted_prediction_tokens" =>
    some (noteChat (countU32? payload) (fun n c => { c with acceptedPredictionTokens := some n }))
  | "chat_rejected_prediction_tokens" =>
    some (noteChat (countU32? payload) (fun n c => { c with rejectedPredictionTokens := some n }))
  | _ => none

def messagesProtocol (sj : SerdeJson) (itemType : String) (payload : Value) : SideChannel :=
  match itemType with
  | "messages_id" =>
    some (noteMessages (nonBlankStr? payload) (fun t m => { m with id := some t }))
  | "messages_web_search_requests" =>
    some (noteMessages (countU32? payload) (fun n m => { m with webSearchRequests := some n }))
  | "messages_web_fetch_requests" =>
    some (noteMessages (countU32? payload) (fun n m => { m with webFetchRequests := some n }))
  | "messages_cache_creation" =>
    some (noteMessages (objectPayload payload) (fun v m => { m with cacheCreation := some v }))
  | "messages_citation" => some (messagesCitation sj payload)
  | _ => none

def responsesProtocol (itemType : String) (payload : Value) : SideChannel :=
  match itemType with
  | "responses_id" =>
    some (noteResponses (nonBlankStr? payload) (fun t r => { r with id := some t }))
  | "responses_previous_id" =>
    some (noteResponses (nonBlankStr? payload) (fun t r => { r with previousId := some t }))
  | "responses_message_id" =>
    some (noteResponses (nonBlankStr? payload) (fun t r => { r with messageId := some t }))
  | "responses_message_status" =>
    some (noteResponses (nonBlankStr? payload) (fun t r => { r with messageStatus := some t }))
  | "responses_message_phase" =>
    some (noteResponses (nonBlankStr? payload) (fun t r => { r with messagePhase := some t }))
  | "responses_message_agent" =>
    some (noteResponses (agentPayload payload) (fun v r => { r with messageAgent := some v }))
  | "responses_reasoning_id" => some (responsesReasoning (nonEmptyStr? payload)
      (fun t r => { r with reasoningId := some t }))
  | "responses_reasoning_status" => some (responsesReasoning (nonEmptyStr? payload)
      (fun t r => { r with reasoningStatus := some t }))
  | "responses_reasoning_content" => some (responsesReasoning (nonEmptyArrayPayload payload)
      (fun v r => { r with reasoningContent := some v }))
  | _ => none

def toolExtraProtocol (itemType : String) (payload : Value) : SideChannel :=
  (toolExtraFromProtocol itemType payload).map (fun extra =>
    note .responses (some extra) (fun e s => noteToolExtra e.1 e.2 s))

def geminiProtocol (itemType : String) (payload : Value) : SideChannel :=
  match itemType with
  | "gemini_response_id" =>
    some (noteGemini (nonBlankStr? payload) (fun t g => { g with responseId := some t }))
  | "gemini_url_context" =>
    some (noteGemini (objectPayload payload) (fun v g => { g with urlContext := some v }))
  | "gemini_citation_metadata" =>
    some (noteGemini (objectPayload payload) (fun v g => { g with citationMetadata := some v }))
  | "gemini_code_part" => some (geminiCodePart payload)
  | "gemini_safety_ratings" =>
    some (noteGemini (nonEmptyArrayPayload payload) (fun v g => { g with safetyRatings := some v }))
  | "gemini_prompt_safety" =>
    some (noteGemini (nonEmptyArrayPayload payload) (fun v g => { g with promptSafety := some v }))
  | "gemini_block_reason_message" =>
    some (noteGemini (trimmedPayload payload) (fun t g => { g with blockReasonMessage := some t }))
  | "gemini_traffic_type" =>
    some (noteGemini (trimmedPayload payload) (fun t g => { g with trafficType := some t }))
  | "gemini_tool_use_prompt_tokens" =>
    some (noteGemini (countU32? payload) (fun n g => { g with toolUsePromptTokens := some n }))
  | "gemini_avg_logprobs" =>
    some (noteGemini payload.asF64? (fun q g => { g with avgLogprobs := some q }))
  | "gemini_candidate_tokens" =>
    some (noteGemini ((countU32? payload).filter (fun n => 0 < n))
      (fun n g => { g with candidateTokens := some n }))
  | "gemini_prompt_token_details" =>
    some (noteGemini (nonEmptyArrayPayload payload)
      (fun v g => { g with promptTokenDetails := some v }))
  | "gemini_candidate_token_details" =>
    some (noteGemini (nonEmptyArrayPayload payload)
      (fun v g => { g with candidateTokenDetails := some v }))
  | _ => none

def ignored : StreamEncoder → List RawSse × StreamEncoder := fun s => ([], s)

def isConversePassthrough (itemType : String) : Bool :=
  ["additionalModelResponseFields", "metrics", "trace", "performanceConfig"].contains itemType

def converseProtocol (wire : Wire) (itemType : String) (payload : Value) : SideChannel :=
  if wire = .converse ∧ isConversePassthrough itemType then
    some (fun s => ([], { s with
      conversePassthrough := s.conversePassthrough ++ [(itemType, payload)] }))
  else if (itemType = "converse_frame" ∨ itemType = "converse_citation") ∧ wire ≠ .converse then
    some ignored
  else if itemType = "converse_redacted_content" then some (converseRedactedContent payload)
  else if ["converse_guard_content", "converse_document", "converse_video", "converse_image",
      "converse_audio"].contains itemType then some ignored
  else none

section
variable (sj : SerdeJson)

def sideChannel (wire : Wire) (itemType : String) (payload : Value) : SideChannel :=
  chatProtocol wire itemType payload <|> messagesProtocol sj itemType payload <|>
    responsesProtocol itemType payload <|> toolExtraProtocol itemType payload <|>
    geminiProtocol itemType payload <|> converseProtocol wire itemType payload

/-- Events that `push` copies to the output as they are. -/
def copiedVerbatim (wire : Wire) : IrStreamEvent → Bool
  | .protocol itemType payload => (sideChannel sj wire itemType payload).isNone
  | .unknown _ _ => true
  | _ => false

/-- Events that this wire has no place for. -/
def skippedOn (wire : Wire) : IrStreamEvent → Bool
  | .diagnostics _ => wire ≠ .messages
  | .container _ => wire ≠ .messages
  | .contextManagement _ => wire ≠ .messages
  | .stopSequence _ => wire ≠ .messages
  | .searchEntryPoint _ => wire ≠ .gemini
  | .annotationAdded ann => wire = .gemini &&
      (((ann.get? "url_context").bind Value.asBool? = some true) ||
        ((ann.get? "citation_metadata").bind Value.asBool? = some true))
  | _ => false

def finish (s : StreamEncoder) : List RawSse × StreamEncoder :=
  if s.finished then ([], s)
  else
    let s := { s with finished := true }
    match s.wire with
    | .messages => finishMessages sj s
    | .responses => finishResponses s
    | .chatCompletions => finishChat s
    | .gemini => finishGemini sj s
    | .converse => finishConverse sj s

def pushWire (s : StreamEncoder) (ev : IrStreamEvent) :
    Except MapError (List RawSse × StreamEncoder) :=
  match s.wire with
  | .messages => pushMessages sj s ev
  | .responses => pushResponses sj s ev
  | .chatCompletions => pushChat sj s ev
  | .converse => pushConverse sj s ev
  | .gemini => pushGemini sj s ev

def push (s : StreamEncoder) (ev : IrStreamEvent) :
    Except MapError (List RawSse × StreamEncoder) :=
  if s.finished then .ok ([], s)
  else
    match ev with
    | .protocol itemType payload =>
      match sideChannel sj s.wire itemType payload with
      | some act => .ok (act s)
      | none => (encodeStreamEvent sj s.wire (.protocol itemType payload)).map (fun f => ([f], s))
    | .unknown event raw =>
      (encodeStreamEvent sj s.wire (.unknown event raw)).map (fun f => ([f], s))
    | .done => .ok (finish sj s)
    | ev => if skippedOn s.wire ev then .ok ([], s) else pushWire sj s ev

/-- Every frame of a stream: `push` for each event, then `finish`. -/
def encodeStream (wire : Wire) (model : String) (evs : List IrStreamEvent) :
    Except MapError (List RawSse) :=
  (runAll (push sj) (StreamEncoder.new wire model) evs).map (fun r => r.1 ++ (finish sj r.2).1)

end

end Wiremux.StreamEncoderPush
