import Wiremux.JsonValue

set_option autoImplicit false

/-!
# Wires, stream events, frames and losses

The dialect-neutral events the decoders produce, the frames the encoders send, and
the report of what an encoder could not keep. `u32` slots and counts are naturals; the encoders saturate explicitly.
-/
namespace Wiremux.StreamEvents
open JsonValue

inductive Wire where
  | chatCompletions
  | messages
  | responses
  | gemini
  | converse
deriving DecidableEq

inductive MapError where
  | json (message : String)
  | hardError (path detail : String)
  | invalid (message : String)
deriving DecidableEq

/-- Exclusive token buckets of one usage report, in the order of the encoder's tuple. -/
structure IrUsage where
  promptTokens : ℕ
  completionTokens : ℕ
  cacheReadTokens : ℕ
  cacheWriteTokens : ℕ
  reasoningTokens : ℕ
  audioTokens : ℕ
  completionAudioTokens : ℕ
deriving DecidableEq

inductive IrStreamEvent where
  | textDelta (text : String)
  | refusalDelta (text : String)
  | reasoningDelta (text : String)
  | reasoningSignature (signature : String)
  | toolCallStart (id name : String) (thoughtSignature : Option String) (index : ℕ)
  | toolCallArgDelta (delta : String) (index : ℕ)
  | toolCallEnd
  | annotationAdded (ann : Value)
  | searchEntryPoint (renderedContent : String)
  | audioDelta (data : String)
  | imageDelta (mediaType data : String)
  | audioTranscriptDelta (text : String)
  | customToolCallStart (id name : String) (index : ℕ)
  | customToolCallInputDelta (delta : String) (index : ℕ)
  | logprobs (content : Value) (refusal : Option Value)
  | created (unix : ℤ)
  | serviceTier (tier : String)
  | metadata (entries : List (String × String))
  | moderation (input output : Option Value)
  | diagnostics (cacheMissReason : Value)
  | container (value : Value)
  | contextManagement (value : Value)
  | stopSequence (text : String)
  | usage (usage : IrUsage) (inferenceGeo : Option String)
  | finishReason (reason : String) (vendor : Option String)
  | protocol (itemType : String) (payload : Value)
  | unknown (event : String) (raw : Value)
  | done

/-- `RawSse::data` is the text of one JSON value, or text that is not JSON of ours. -/
inductive SseData where
  | json (value : Value)
  | text (s : String)

structure RawSse where
  event : Option String
  data : SseData

def SseData.value? : SseData → Option Value
  | .json v => some v
  | .text _ => none

/-- Field of the JSON object in the frame. -/
def RawSse.get? (frame : RawSse) (key : String) : Option Value :=
  frame.data.value?.bind (fun v => v.get? key)

def named (event : String) (data : Value) : RawSse := ⟨some event, .json data⟩

/-- A frame without an `event:` line. -/
def unnamed (data : Value) : RawSse := ⟨none, .json data⟩

def doneFrame : RawSse := ⟨none, .text "[DONE]"⟩

def sseEventField (name : String) : Option String :=
  if name = "" ∨ name = "chunk" ∨ name = "[DONE]" then none else some name

def encodeNamed (name : String) (raw : Value) : RawSse :=
  match raw with
  | .string s => ⟨sseEventField name, .text s⟩
  | other => ⟨sseEventField name, .json other⟩

/-- Messages and Converse have no custom-tool frame, so those encoders
reuse the function-tool block. -/
def customToolAsFunction : IrStreamEvent → IrStreamEvent
  | .customToolCallStart id name index => .toolCallStart id name none index
  | .customToolCallInputDelta delta index => .toolCallArgDelta delta index
  | other => other

def isCustomTool : IrStreamEvent → Bool
  | .customToolCallStart .. => true
  | .customToolCallInputDelta .. => true
  | _ => false

section
variable (sj : SerdeJson)

def jsonObjectOrWrapped (rawText wrapKey : String) : Value × Bool :=
  match sj.fromStr rawText with
  | some value => if value.isObject then (value, false) else (.object [(wrapKey, value)], true)
  | none => (.object [(wrapKey, .string rawText)], true)

/-- Custom-tool input on a response wire that has no custom-tool frame.
Empty input stays `{}`. -/
def responseCustomToolInput (rawText : String) : Value :=
  if rawText.isEmpty then .object [] else (jsonObjectOrWrapped sj rawText "raw").1

def customInputText (rawText : String) : String := sj.toString (responseCustomToolInput sj rawText)

end

end Wiremux.StreamEvents

namespace Wiremux.Losses

inductive LossAction where
  | preserve
  | degrade
  | drop
  | hardError
deriving DecidableEq

structure LossEvent where
  path : String
  action : LossAction
  detail : String
deriving DecidableEq

abbrev LossReport := List LossEvent

def record (report : LossReport) (path : String) (action : LossAction) (detail : String) :
    LossReport := report ++ [⟨path, action, detail⟩]

end Wiremux.Losses
