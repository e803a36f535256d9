import Wiremux.CompleteTools
import Wiremux.StreamEncoderPush

set_option autoImplicit false

/-!
# The complete Converse body
-/
namespace Wiremux.ConverseComplete
open JsonValue StreamEvents UsageFields StreamEventEncoding StreamEventFrames EmittingRuns
open StreamEncoderPush CompleteTools

structure ConverseBody where
  text : String := ""
  content : List Value := []
  citations : List Value := []
  reasoning : String := ""
  reasoningSignature : Option String := none
  redactedReasoning : List String := []
  audioData : String := ""
  stop : String := "end_turn"
  usage : Option IrUsage := none
  serviceTier : Option String := none
  passthrough : List (String × Value) := []
  tools : IndexedTools := {}

def flushText (b : ConverseBody) : ConverseBody :=
  if b.text.isEmpty then b
  else { b with content := b.content ++ [.object [("text", b.text)]], text := "" }

def addBlock (block : Value) (b : ConverseBody) : ConverseBody :=
  let b := flushText b
  { b with content := b.content ++ [block] }

def converseBlockKey (itemType : String) : Option String :=
  match itemType with
  | "converse_guard_content" => some "guardContent"
  | "converse_document" => some "document"
  | "converse_video" => some "video"
  | "converse_image" => some "image"
  | "converse_audio" => some "audio"
  | _ => none

def converseProtocolField (itemType : String) (payload : Value) (b : ConverseBody) :
    ConverseBody :=
  if itemType = "converse_redacted_content" then
    { b with redactedReasoning := b.redactedReasoning ++ (nonEmptyStr? payload).toList }
  else if itemType = "converse_citation" ∧ payload.isObject then
    { b with citations := b.citations ++ [payload] }
  else
    match (converseBlockKey itemType).filter (fun _ => payload.isObject) with
    | some key => addBlock (.object [(key, payload)]) b
    | none =>
      if isConversePassthrough itemType ∧ !payload.isNull then
        { b with passthrough := b.passthrough ++ [(itemType, payload)] }
      else b

def converseBodyStart (index : ℕ) (id name : String) (custom : Bool) (b : ConverseBody) :
    ConverseBody :=
  let b := flushText b
  { b with tools := noteConverseTool index id name custom b.tools }

def converseBodyEvent (b : ConverseBody) : IrStreamEvent → Except MapError ConverseBody
  | .textDelta delta => .ok { b with text := b.text ++ delta }
  | .audioTranscriptDelta delta => .ok { b with text := b.text ++ delta }
  | .refusalDelta delta => .ok { b with text := b.text ++ delta }
  | .reasoningDelta delta => .ok { b with reasoning := b.reasoning ++ delta }
  | .reasoningSignature signature => .ok { b with reasoningSignature := some signature }
  | .audioDelta data => .ok { b with audioData := b.audioData ++ data }
  | .imageDelta mediaType data =>
    match converseImageFormat mediaType with
    | some format => .ok (addBlock (.object [("image", .object [("format", format),
        ("source", .object [("bytes", data)])])]) b)
    | none => .error (converseUnsupportedImage mediaType)
  | .annotationAdded ann =>
    .ok { b with citations := b.citations ++ [ converseCitationFromAnnotation ann] }
  | .toolCallStart id name _ index => .ok (converseBodyStart index id name false b)
  | .customToolCallStart id name index => .ok (converseBodyStart index id name true b)
  | .toolCallArgDelta delta index => .ok { b with tools := indexedToolDelta index delta b.tools }
  | .customToolCallInputDelta delta index =>
    .ok { b with tools := indexedToolDelta index delta b.tools }
  | .finishReason reason _ => .ok { b with stop := converseFinishReason reason }
  | .serviceTier tier =>
    .ok { b with serviceTier := (converseServiceTier tier).or b.serviceTier }
  | .usage u _ => .ok { b with usage := some u }
  | .protocol itemType payload => .ok (converseProtocolField itemType payload b)
  | _ => .ok b

def conversePrefix (b : ConverseBody) : List Value :=
  let signature := b.reasoningSignature.filter (fun s => !s.isEmpty)
  let redacted := b.redactedReasoning.map (fun blob =>
    Value.object [("reasoningContent", .object [("redactedContent", blob)])])
  let reasoning := if b.reasoning.isEmpty && signature.isNone then []
    else [Value.object [("reasoningContent", .object [("reasoningText",
      (Value.object [("text", b.reasoning)]).insertSome "signature" (signature.map .string))])]]
  let audio := if b.audioData.isEmpty then []
    else [Value.object [("audio", .object [("format", "mp3"),
      ("source", .object [("bytes", b.audioData)])])]]
  redacted ++ reasoning ++ audio

def citationsContent (run citations : List Value) : Value :=
  .object [("citationsContent", .object [("content", .array run),
    ("citations", .array citations)])]

def citeFirstRun (citations : List Value) (content : List Value) : List Value :=
  let isText (block : Value) : Bool := (block.get? "text").isSome
  let before := content.takeWhile (fun block => !isText block)
  let rest := content.dropWhile (fun block => !isText block)
  before ++ citationsContent (rest.takeWhile isText) citations :: rest.dropWhile isText

def converseContent (b : ConverseBody) : List Value :=
  if b.citations.isEmpty then conversePrefix b ++ (flushText b).content
  else citeFirstRun b.citations (conversePrefix b ++ (flushText b).content)

def converseCalls (b : ConverseBody) : List IndexedTool :=
  ((indexedToolFinish b.tools).map Prod.snd).filter toolNamed

def converseBodyStop (b : ConverseBody) : String :=
  if !(converseCalls b).isEmpty ∧ b.stop = "end_turn" then "tool_use" else b.stop

def converseBodyValue (sj : SerdeJson) (b : ConverseBody) : Value :=
  let body := Value.object [("output", .object [("message", .object [("role", "assistant"),
      ("content", .array (converseContent b ++ (converseCalls b).map (converseToolUse sj)))])]),
    ("stopReason", converseBodyStop b)]
  let body := body.insertSome "serviceTier"
    (b.serviceTier.map (fun tier => .object [("type", .string tier)]))
  let body := body.insertSome "usage" (b.usage.map encodeConverseUsage)
  b.passthrough.foldl (fun body p => body.insert p.1 p.2) body

def encodeComplete (sj : SerdeJson) (evs : List IrStreamEvent) : Except MapError Value :=
  (evs.foldlM converseBodyEvent {}).map (converseBodyValue sj)

end Wiremux.ConverseComplete
