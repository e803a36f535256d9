import Wiremux.Completion
import Wiremux.EventStream
import Wiremux.StreamEvents

set_option autoImplicit false

/-!
# Frames as they come from upstream

The name of a frame, whether it ends a stream, and the vendor error it carries
when it carries nothing else. The data is read again for each question.
-/
namespace Wiremux.Upstream
open JsonValue StreamEvents Completion SseReader

variable (sj : SerdeJson)

def converseNames : List String :=
  ["contentBlockDelta", "contentBlockStart", "contentBlockStop", "messageStop", "metadata",
    "messageStart"]

def frameEventName (wire : Wire) (raw : SseFrame) : String :=
  match raw.event.filter (· ≠ "") with
  | some event => event
  | none =>
    if trim raw.data = "[DONE]" then "[DONE]"
    else
      match wire with
      | .chatCompletions => "chunk"
      | .gemini => "chunk"
      | .converse =>
        ((sj.fromStr (trim raw.data)).bind fun value =>
          converseNames.find? fun name => (value.get? name).isSome).getD "contentBlockDelta"
      | _ =>
        ((sj.fromStr (trim raw.data)).bind fun value => value.strAt? "type").getD "chunk"

def chatFrameIsTerminal (raw : SseFrame) : Bool :=
  raw.event == some "[DONE]" || trim raw.data == "[DONE]" ||
    (sj.fromStr raw.data).any fun value =>
      arrayAny value "choices" fun choice => nonemptyStr choice "finish_reason"

def messagesFrameIsTerminal (raw : SseFrame) : Bool :=
  let name := frameEventName sj .messages raw
  name == "message_stop" || (name == "message_delta" &&
    (sj.fromStr raw.data).any fun value => nonemptyAt value ["delta", "stop_reason"])

def converseFrameIsTerminal (raw : SseFrame) : Bool :=
  (sj.fromStr raw.data).any fun value =>
    ((pointer? value ["messageStop", "stopReason"]).bind Value.asStr?).isSome

def responsesFrameIsTerminal (raw : SseFrame) : Bool :=
  ["response.completed", "response.incomplete", "response.failed"].contains
    (frameEventName sj .responses raw)

def firstCandidate (value : Value) : Option Value :=
  (value.get? "candidates").bind fun v => (v.nth? 0).orElse fun _ => v.get? "0"

def geminiFrameIsTerminal (raw : SseFrame) : Bool :=
  (sj.fromStr raw.data).any fun value =>
    ((firstCandidate value).any fun candidate => nonemptyStr candidate "finishReason") ||
      nonemptyAt value ["promptFeedback", "blockReason"]

/-- The frame ends a stream of `wire`. -/
def frameIsTerminal (wire : Wire) (raw : SseFrame) : Bool :=
  match wire with
  | .chatCompletions => chatFrameIsTerminal sj raw
  | .messages => messagesFrameIsTerminal sj raw
  | .responses => responsesFrameIsTerminal sj raw
  | .gemini => geminiFrameIsTerminal sj raw
  | .converse => converseFrameIsTerminal sj raw

/-- `type`, `code` or `status` of a wrapped error; the bare `error` type says nothing. -/
def wrappedErrorCode (error : Value) (key : String) : Option String :=
  ((error.strAt? key).filter fun text => !text.isEmpty).filter fun text =>
    !(key == "type" && text == "error")

def wrappedError (value : Value) : Option Value :=
  match (value.get? "error").filter Value.isObject with
  | some error => some error
  | none => if value.strAt? "type" = some "error" then some value else none

def sseWrappedErrorMessage (data : String) : Option String :=
  (sj.fromStr data).bind fun value =>
    if jsonHasCompletion value || choiceVisible value then none
    else
      match jsonStringError value with
      | some text => some text
      | none =>
        (wrappedError value).map fun error =>
          let message := (error.strAt? "message").filter fun text => !text.isEmpty
          match ["type", "code", "status"].findSome? (wrappedErrorCode error), message with
          | some code, some message => code ++ ": " ++ message
          | none, some message => message
          | _, none => data

/-- Event Stream for Converse, SSE otherwise. -/
inductive UpstreamFrames where
  | sse (r : SseFrameReader)
  | event (r : EventStream.EventStreamReader)

namespace UpstreamFrames

def forWire : Wire → UpstreamFrames
  | .converse => .event {}
  | _ => .sse {}

/-- An SSE error leaves the reader empty. -/
def feed (bytes : List UInt8) :
    UpstreamFrames → Except String (List SseFrame × Option String) × UpstreamFrames
  | .sse r =>
    match SseReader.feed r bytes with
    | .error e => (.error e, .sse {})
    | .ok (frames, r) => (.ok (frames, none), .sse r)
  | .event r =>
    let (result, r) := EventStream.feed sj r bytes
    (result, .event r)

def hasOpenFrame : UpstreamFrames → Bool
  | .sse r => SseReader.hasOpenFrame r
  | .event _ => false

def finish : UpstreamFrames → Except String (Option SseFrame)
  | .sse r => SseReader.finish r
  | .event r => EventStream.finish r

end UpstreamFrames

end Wiremux.Upstream
