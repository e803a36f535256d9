import Wiremux.ResponsesFrames
import Wiremux.StopSignals

set_option autoImplicit false

/-!
# Reading stop reasons

Where each wire keeps its stop reason in a frame.
-/
namespace Wiremux.StopReasons
open JsonValue StreamEvents StreamEventEncoding StreamEventFrames EncoderState GeminiEncoder
open ResponsesFrames StreamEncoderPush CallEvents StopSignals

/-- A stop reason; on Responses, the status and the reason of an incomplete one. -/
structure Stop where
  word : String
  detail : Option String
deriving DecidableEq

def plainStop (word : Option String) : Option Stop := word.map fun w => ⟨w, none⟩

def choiceStop (v : Value) : Option Stop :=
  plainStop (((v.get? "choices").bind fun choices => choices.nth? 0).bind fun choice =>
    choice.strAt? "finish_reason")

def candidateStop (v : Value) : Option Stop :=
  plainStop ((firstCandidate? v).bind fun candidate => candidate.strAt? "finishReason")

def responseStop (response : Value) : Option Stop :=
  (response.strAt? "status").map fun status =>
    ⟨status, (response.get? "incomplete_details").bind fun details => details.strAt? "reason"⟩

def frameStop (wire : Wire) (frame : RawSse) : Option Stop :=
  frame.data.value?.bind fun v =>
    match wire with
    | .chatCompletions => choiceStop v
    | .messages =>
      if v.strAt? "type" = some "message_delta" then
        plainStop ((v.get? "delta").bind fun delta => delta.strAt? "stop_reason")
      else none
    | .responses =>
      if (v.strAt? "type").any isTerminal then (v.get? "response").bind responseStop else none
    | .gemini => candidateStop v
    | .converse => plainStop ((v.get? "messageStop").bind fun stop => stop.strAt? "stopReason")

def stopsIn (wire : Wire) (frames : List RawSse) : List Stop := frames.filterMap (frameStop wire)

@[simp] theorem stopsIn_nil (wire : Wire) : stopsIn wire [] = [] := rfl

@[simp] theorem stopsIn_append (wire : Wire) (fs gs : List RawSse) :
    stopsIn wire (fs ++ gs) = stopsIn wire fs ++ stopsIn wire gs := List.filterMap_append

theorem stopsIn_cons (wire : Wire) (f : RawSse) (fs : List RawSse) :
    stopsIn wire (f :: fs) = (frameStop wire f).toList ++ stopsIn wire fs := by
  unfold stopsIn
  cases h : frameStop wire f <;> simp [h]

/-- The stop reason of the frame that an event is copied to. -/
def copiedStop (sj : SerdeJson) (wire : Wire) (ev : IrStreamEvent) : Option Stop :=
  if copiedVerbatim sj wire ev then
    match encodeStreamEvent sj wire ev with
    | .ok frame => frameStop wire frame
    | .error _ => none
  else none

variable {sj : SerdeJson} {wire : Wire} {ev : IrStreamEvent}

theorem copiedStop_eq {frame : RawSse} (hcopied : copiedVerbatim sj wire ev = true)
    (hframe : encodeStreamEvent sj wire ev = .ok frame) :
    (copiedStop sj wire ev).toList = stopsIn wire [frame] := by
  rw [stopsIn_cons, copiedStop, if_pos hcopied, hframe]
  simp

theorem copiedStop_own (h : copiedVerbatim sj wire ev = false) : copiedStop sj wire ev = none :=
  if_neg (by simp [h])

theorem copied_quiet (h : copiedVerbatim sj wire ev = true) :
    finishOf? ev = none ∧ isCallEvent ev = false ∧ refusalOf ev = "" := by
  cases ev <;> first | exact ⟨rfl, rfl, rfl⟩ | cases h

end Wiremux.StopReasons
