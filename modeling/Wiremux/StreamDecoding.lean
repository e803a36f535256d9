import Wiremux.ConverseDecoding
import Wiremux.GeminiDecoding
import Wiremux.ResponsesDecoding

set_option autoImplicit false

/-!
# Decoding one frame

`decodeStreamEvent` gives one event of a frame; `decodeStreamEventsSeq` gives
them all, and falls back on the single one. The number of the next Gemini call
is passed along.
-/
namespace Wiremux.StreamDecoding
open JsonValue StreamEvents Completion SseReader Upstream FrameDecoding

variable (sj : SerdeJson)

def decodeValue (wire : Wire) (name : String) (value : Value) :
    Except MapError (Option IrStreamEvent) :=
  match wire with
  | .chatCompletions => ChatDecoding.decode sj value
  | .messages => MessagesDecoding.decode name value
  | .responses => ResponsesDecoding.decode sj name value
  | .gemini => GeminiDecoding.decode value
  | .converse => ConverseDecoding.decode value

def decodeListed (wire : Wire) (name : String) (raw : SseFrame) :
    Except MapError (Option IrStreamEvent) :=
  if name = "[DONE]" ∨ trim raw.data = "[DONE]" then .ok (some .done)
  else
    match sj.fromStr raw.data with
    -- The text stands for the message of the parser.
    | none => .error (.json raw.data)
    | some value => decodeValue sj wire name value

def decodeStreamEvent (wire : Wire) (raw : SseFrame) (dialect : Dialect) :
    Except MapError (Option IrStreamEvent) :=
  if raw.event.isNone && isBlank raw.data then .ok none
  else
    let name := frameEventName sj wire raw
    if dialect.streamEvents.contains name then decodeListed sj wire name raw
    else unknownEvent sj wire dialect name raw.data

def isProtocol : IrStreamEvent → Bool
  | .protocol .. => true
  | _ => false

def expandEach (chunk : Value) : List Value → Except MapError (List IrStreamEvent)
  | [] => .ok []
  | call :: rest =>
    match ChatDecoding.expandToolCall sj call chunk with
    | .error e => .error e
    | .ok events =>
      (expandEach chunk rest).map fun more => events.filter (fun ev => !isProtocol ev) ++ more

def orNone (events : List IrStreamEvent) : Option (List IrStreamEvent) :=
  if events.isEmpty then none else some events

def expandChatToolCall (first : IrStreamEvent) (value : Value) :
    Except MapError (Option (List IrStreamEvent)) :=
  if isProtocol first then
    match ((firstOf value "choices").bind fun choice =>
        pointer? choice ["delta", "tool_calls"]).bind Value.asArray? with
    | none => .ok none
    | some calls => (expandEach sj value calls).map orNone
  else .ok none

def isCallOrProtocol : IrStreamEvent → Bool
  | .protocol .. => true
  | .toolCallStart .. => true
  | _ => false

def expandGeminiFunctionCall (first : IrStreamEvent) (value : Value) : Option (List IrStreamEvent) :=
  ((items (GeminiDecoding.candidateAt value ["content", "parts"])).find? fun part =>
    (part.get? "functionCall").isSome).bind fun part =>
      (part.get? "functionCall").bind fun fc =>
        (GeminiDecoding.callArgs fc).bind fun args =>
          if isCallOrProtocol first then
            some [GeminiDecoding.callStart part fc 0 0, .toolCallArgDelta (sj.toString args) 0]
          else none

def expandResponsesFunctionCall (first : IrStreamEvent) (value : Value) :
    Option (List IrStreamEvent) :=
  match first with
  | .toolCallStart id name thoughtSignature index =>
    (nonempty (textAt value ["item", "arguments"])).map fun args =>
      [.toolCallStart id name thoughtSignature index, .toolCallArgDelta args index]
  | _ => none

def expandCompleteToolCall (wire : Wire) (first : IrStreamEvent) (raw : SseFrame) :
    Except MapError (Option (List IrStreamEvent)) :=
  match sj.fromStr raw.data with
  | none => .ok none
  | some value =>
    match wire with
    | .chatCompletions => expandChatToolCall sj first value
    | .gemini => .ok (expandGeminiFunctionCall sj first value)
    | .responses => .ok (expandResponsesFunctionCall first value)
    | .messages => .ok none
    | .converse => .ok none

def containsText (pattern : List Char) : List Char → Bool
  | [] => pattern.isEmpty
  | c :: rest => pattern.isPrefixOf (c :: rest) || containsText pattern rest

def singularLimit : Except MapError (Option IrStreamEvent) → Bool
  | .error (.invalid detail) => containsText "decode_stream_events".toList detail.toList
  | _ => false

def chatNamedFrame (first : Except MapError (Option IrStreamEvent)) : Bool :=
  match first with
  | .ok (some (.unknown ..)) => false
  | .ok _ => true
  | .error _ => singularLimit first

/-- The events of all kinds stand when one was found, or too many. -/
def standsIn (first : Except MapError (Option IrStreamEvent)) : Bool :=
  first.toOption.isSome || singularLimit first

def loneProtocol : List IrStreamEvent → Bool
  | [.protocol ..] => true
  | _ => false

def chatEvents (first : Except MapError (Option IrStreamEvent)) (raw : SseFrame) :
    Except MapError (Option (List IrStreamEvent)) :=
  match sj.fromStr raw.data with
  | none => .ok none
  | some value =>
    match ChatDecoding.decodeAll sj value with
    | .error e => if chatNamedFrame first then .error e else .ok none
    | .ok [] => .ok none
    | .ok (ev :: rest) =>
      if standsIn first then
        if loneProtocol (ev :: rest) then expandCompleteToolCall sj .chatCompletions ev raw
        else .ok (some (ev :: rest))
      else .ok none

def responsesEvents (first : Except MapError (Option IrStreamEvent)) (raw : SseFrame) :
    Except MapError (Option (List IrStreamEvent)) :=
  match sj.fromStr raw.data with
  | none => .ok none
  | some value =>
    let name := frameEventName sj .responses raw
    match if first.toOption.isSome then ResponsesDecoding.decodeTerminalEvents name value
      else none with
    | some events => .ok (some events)
    | none =>
      (ResponsesDecoding.decodeAll sj name value).map fun events =>
        if standsIn first then orNone events else none

/-- The events that settle a frame before its first event is looked at. -/
def earlyEvents (wire : Wire) (first : Except MapError (Option IrStreamEvent)) (raw : SseFrame) :
    Except MapError (Option (List IrStreamEvent)) :=
  match wire with
  | .chatCompletions => chatEvents sj first raw
  | .responses => responsesEvents sj first raw
  | _ => .ok none

/-- Events found in the data, whatever the first event is. -/
def fanOutEvents (wire : Wire) (raw : SseFrame) (seq : ℕ) : Option (List IrStreamEvent × ℕ) :=
  match wire with
  | .converse =>
    (sj.fromStr raw.data).bind fun value =>
      let events := ConverseDecoding.decodeMetadataEvents value
      if 2 ≤ events.length then some (events, seq) else none
  | .gemini => (sj.fromStr raw.data).bind fun value => GeminiDecoding.fanOut sj value seq
  | _ => none

def aroundFirst (wire : Wire) (raw : SseFrame) (first : IrStreamEvent) : List IrStreamEvent :=
  match wire with
  | .messages =>
    match sj.fromStr raw.data with
    | some value => MessagesDecoding.frameEvents (frameEventName sj .messages raw) value first
    | none => [first]
  | _ => [first]

/-- The events of a frame that its first event settles. -/
def eventsOfFirst (wire : Wire) (raw : SseFrame) (first : Option IrStreamEvent) :
    Except MapError (List IrStreamEvent) :=
  match first with
  | none => .ok []
  | some first =>
    (expandCompleteToolCall sj wire first raw).map fun expanded =>
      expanded.getD (aroundFirst sj wire raw first)

def decodeStreamEventsSeq (wire : Wire) (raw : SseFrame) (dialect : Dialect) (seq : ℕ) :
    Except MapError (List IrStreamEvent × ℕ) :=
  let first := decodeStreamEvent sj wire raw dialect
  match earlyEvents sj wire first raw with
  | .error e => .error e
  | .ok (some events) => .ok (events, seq)
  | .ok none =>
    match first with
    | .error e => .error e
    | .ok first =>
      match fanOutEvents sj wire raw seq with
      | some out => .ok out
      | none => (eventsOfFirst sj wire raw first).map fun events => (events, seq)

def decodeStreamEvents (wire : Wire) (raw : SseFrame) (dialect : Dialect) :
    Except MapError (List IrStreamEvent) :=
  (decodeStreamEventsSeq sj wire raw dialect 0).map Prod.fst

/-- The number of the next Gemini call of a stream. -/
structure StreamDecoder where
  geminiCallSeq : ℕ := 0

/-- An error leaves the decoder as it is. -/
def StreamDecoder.decode (d : StreamDecoder) (wire : Wire) (raw : SseFrame) (dialect : Dialect) :
    Except MapError (List IrStreamEvent) × StreamDecoder :=
  match decodeStreamEventsSeq sj wire raw dialect d.geminiCallSeq with
  | .error e => (.error e, d)
  | .ok (events, seq) => (.ok events, ⟨seq⟩)

end Wiremux.StreamDecoding
