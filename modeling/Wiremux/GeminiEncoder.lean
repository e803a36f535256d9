import Wiremux.EmittingRuns
import Wiremux.EncoderState

set_option autoImplicit false

/-!
# The Gemini stream encoder

`functionCall.args` is one JSON object, so the fragments of a call are kept
under its index until it closes. Frames that arrive while a call is open are
kept behind it.
-/
namespace Wiremux.GeminiEncoder
open JsonValue StreamEvents UsageFields StreamEventEncoding StreamEventFrames
open EmittingRuns EncoderState

def firstCandidate? (v : Value) : Option Value :=
  (v.get? "candidates").bind (fun candidates => candidates.nth? 0)

def hasFinishReason (v : Value) : Bool :=
  ((firstCandidate? v).bind (fun c => c.get? "finishReason")).isSome

def insertOnCandidate (key : String) (x : Value) (v : Value) : Value :=
  match v.get? "candidates" with
  | some (.array (c :: rest)) => v.insert "candidates" (.array (c.insert key x :: rest))
  | _ => v

/-- A field of the first candidate, on the frame that ends it. -/
def attachFinal (key : String) (x : Option Value) (v : Value) : Value :=
  match x with
  | some x => if hasFinishReason v then insertOnCandidate key x v else v
  | none => v

def attachPromptFeedback (g : GeminiSide) (v : Value) : Value :=
  if (g.promptSafety.isSome || g.blockReasonMessage.isSome) && hasFinishReason v then
    let feedback := (v.get? "promptFeedback").getD (.object [])
    let feedback := feedback.insertSome "safetyRatings" g.promptSafety
    v.insert "promptFeedback"
      (feedback.insertSome "blockReasonMessage" (g.blockReasonMessage.map .string))
  else v

def attachUsage (g : GeminiSide) (v : Value) : Value :=
  match v.get? "usageMetadata" with
  | some usage =>
    let usage := insertGeminiTrafficType usage g.trafficType
    let usage := insertGeminiToolUsePromptTokens usage g.toolUsePromptTokens
    let usage := insertGeminiModalityDetails usage "promptTokensDetails" g.promptTokenDetails
    v.insert "usageMetadata"
      (insertGeminiModalityDetails usage "candidatesTokensDetails" g.candidateTokenDetails)
  | none => v

/-- Without a noted field every step leaves the frame as it is, where the
source returns early. -/
def attachDestModelValue (s : StreamEncoder) (v : Value) : Value :=
  let g := s.gemini
  let v := if s.model.isEmpty then v else v.insert "modelVersion" s.model
  let v := v.insertSome "responseId" (g.responseId.map .string)
  let v := attachFinal "safetyRatings" g.safetyRatings v
  let v := attachFinal "urlContextMetadata" g.urlContext v
  let v := attachFinal "citationMetadata" g.citationMetadata v
  let v := attachPromptFeedback g v
  let v := attachUsage g v
  let v := attachFinal "avgLogprobs" (g.avgLogprobs.map .number) v
  attachFinal "tokenCount" ((g.candidateTokens.filter (fun n => 0 < n)).map
    (fun n => .number (.posInt n))) v

def attachDestModel (s : StreamEncoder) (frame : RawSse) : RawSse :=
  match frame.data with
  | .text _ => frame
  | .json v => ⟨frame.event, .json (attachDestModelValue s v)⟩

section
variable (sj : SerdeJson)

def geminiCallArgs (call : GeminiHeldCall) : Value :=
  if call.custom then responseCustomToolInput sj call.args
  else if call.args.isEmpty then .object []
  else (sj.fromStr call.args).getD (.object [])

/-- A call id is not a function name. An unnamed call is not sent. -/
def geminiCallFrame (s : StreamEncoder) (call : GeminiHeldCall) : Option RawSse :=
  if call.name.isEmpty then none
  else some (attachDestModel s (unnamed (geminiPart
    (functionCallPart call.id call.name (geminiCallArgs sj call) call.thoughtSignature))))

/-- A start at an index that holds only arguments fills that call. A second
named start replaces it. -/
def holdGeminiStart (index : ℕ) (id name : String) (thoughtSignature : Option String)
    (custom : Bool) (s : StreamEncoder) : List RawSse × StreamEncoder :=
  let fresh : GeminiHeldCall := ⟨id, name, "", thoughtSignature, custom⟩
  match s.geminiOpenCalls[index]? with
  | some prev =>
    if prev.id.isEmpty && prev.name.isEmpty then
      let filled : GeminiHeldCall := { prev with
        id := id
        name := name
        custom := prev.custom || custom
        thoughtSignature := thoughtSignature.or prev.thoughtSignature }
      ([], { s with geminiOpenCalls := s.geminiOpenCalls.insert index filled })
    else ((geminiCallFrame sj s prev).toList,
      { s with geminiOpenCalls := s.geminiOpenCalls.insert index fresh })
  | none => ([], { s with geminiOpenCalls := s.geminiOpenCalls.insert index fresh })

def appendGeminiArgs (index : ℕ) (delta : String) (custom : Bool) (s : StreamEncoder) :
    StreamEncoder :=
  let call : GeminiHeldCall :=
    match s.geminiOpenCalls[index]? with
    | some call => { call with args := call.args ++ delta, custom := call.custom || custom }
    | none => ⟨"", "", delta, none, custom⟩
  { s with geminiOpenCalls := s.geminiOpenCalls.insert index call }

def flushGeminiCalls (s : StreamEncoder) : List RawSse × StreamEncoder :=
  ((s.geminiOpenCalls.toList.map Prod.snd).filterMap (geminiCallFrame sj s) ++ s.geminiDeferred,
    { s with geminiOpenCalls := ∅, geminiDeferred := [] })

def pushGemini (s : StreamEncoder) (ev : IrStreamEvent) :
    Except MapError (List RawSse × StreamEncoder) :=
  match ev with
  | .toolCallStart id name sig index => .ok (holdGeminiStart sj index id name sig false s)
  | .customToolCallStart id name index => .ok (holdGeminiStart sj index id name none true s)
  | .toolCallArgDelta delta index => .ok ([], appendGeminiArgs index delta false s)
  | .customToolCallInputDelta delta index => .ok ([], appendGeminiArgs index delta true s)
  | .toolCallEnd => .ok (flushGeminiCalls sj s)
  | .finishReason reason vendor =>
    let flushed := flushGeminiCalls sj s
    (encodeStreamEvent sj .gemini (.finishReason reason vendor)).map (fun f =>
      (flushed.1 ++ [attachDestModel flushed.2 f], flushed.2))
  | other =>
    (encodeStreamEvent sj .gemini other).map (fun f =>
      if s.geminiOpenCalls.isEmpty then ([attachDestModel s f], s)
      else ([], { s with geminiDeferred := s.geminiDeferred ++ [attachDestModel s f] }))

def finishGemini (s : StreamEncoder) : List RawSse × StreamEncoder :=
  let flushed := flushGeminiCalls sj s
  (flushed.1 ++ [doneFrame], flushed.2)

end

end Wiremux.GeminiEncoder
