import Wiremux.FrameDecoding

set_option autoImplicit false

/-!
# Decoding Converse frames
-/
namespace Wiremux.ConverseDecoding
open JsonValue StreamEvents Completion UsageDecoding FrameDecoding

def streamKeys : List String :=
  ["messageStart", "contentBlockStart", "contentBlockDelta", "contentBlockStop", "messageStop",
    "metadata"]

def converseStreamFrame (value : Value) : Bool := streamKeys.any fun key => (value.get? key).isSome

/-- A Bedrock exception, or the `error` of a body that is no frame. -/
def completeExceptionDetail (value : Value) : Option String :=
  if converseHasCompletion value then none
  else
    match nonempty ((value.strAt? "__type").map trim), nonempty ((value.strAt? "message").map trim) with
    | some ty, some message => some (ty ++ ": " ++ message)
    | some ty, none => some ty
    | none, some message => some message
    | none, none => if converseStreamFrame value then none else plainErrorDetail value

def annotationFromConverseCitation (citation : Value) : Option Value :=
  (nonempty (((pointer? citation ["location", "web", "url"]).orElse fun _ =>
    citation.get? "source").bind Value.asStr?)).map fun url =>
      (Value.object [("type", "url_citation"), ("url", url)]).insertSome "title"
        ((nonempty (citation.strAt? "title")).map Value.string)

def contentBlockIndex (block : Value) : Except MapError ℕ :=
  (checkIndex block "contentBlockIndex" maxContentBlockIndex "content block").map fun _ =>
    indexField block "contentBlockIndex"

def imageMediaType (format : String) : String :=
  match asciiLower format with
  | "png" => "image/png"
  | "jpeg" => "image/jpeg"
  | "jpg" => "image/jpeg"
  | "gif" => "image/gif"
  | "webp" => "image/webp"
  | _ => "image/" ++ format

def imageDeltaFromConverse (image : Value) : Option IrStreamEvent :=
  (nonempty (textAt image ["source", "bytes"])).bind fun data =>
    (nonempty (image.strAt? "format")).map fun format => .imageDelta (imageMediaType format) data

def audioDeltaFromBlock (audio : Value) : Option IrStreamEvent :=
  (nonempty (textAt audio ["source", "bytes"])).map .audioDelta

def serviceTierFrom (value : Value) : Option String :=
  nonempty (((pointer? value ["metadata", "serviceTier", "type"]).orElse fun _ =>
    pointer? value ["serviceTier", "type"]).bind Value.asStr?)

/-- What a delta says, when it says anything. -/
def decodeDelta (value delta : Value) : Option (Except MapError IrStreamEvent) :=
  ((delta.strAt? "text").map fun text => .ok (.textDelta text)).orElse fun _ =>
    ((textAt delta ["reasoningContent", "text"]).map fun text =>
        .ok (.reasoningDelta text)).orElse fun _ =>
      ((textAt delta ["reasoningContent", "signature"]).map fun signature =>
          .ok (.reasoningSignature signature)).orElse fun _ =>
        ((nonempty (textAt delta ["reasoningContent", "redactedContent"])).map fun blob =>
            .ok (protocol "converse_redacted_content" blob)).orElse fun _ =>
          ((textAt delta ["toolUse", "input"]).map fun input =>
              (contentBlockIndex ((value.get? "contentBlockDelta").getD value)).map fun index =>
                .toolCallArgDelta input index).orElse fun _ =>
            (delta.get? "citation").map fun citation =>
              match annotationFromConverseCitation citation with
              | some annotation => .ok (.annotationAdded annotation)
              -- A document citation has no address; its frame is kept whole.
              | none => .ok (protocol "converse_frame" value)

def decodeTool (start tool : Value) : Except MapError (Option IrStreamEvent) :=
  (contentBlockIndex start).map fun index =>
    some (.toolCallStart ((tool.strAt? "toolUseId").getD "") ((tool.strAt? "name").getD "") none index)

/-- A block that starts with a call, an image or audio. -/
def decodeStart (value : Value) : Option (Except MapError (Option IrStreamEvent)) :=
  (value.get? "contentBlockStart").bind fun start =>
    ((pointer? start ["start", "toolUse"]).map (decodeTool start)).orElse fun _ =>
      ((pointer? start ["start", "image"]).map fun image =>
          .ok (imageDeltaFromConverse image)).orElse fun _ =>
        (pointer? start ["start", "audio"]).map fun audio => .ok (audioDeltaFromBlock audio)

/-- A frame that is neither a delta nor a start. -/
def decodeBracket (value : Value) : Option IrStreamEvent :=
  if (value.get? "contentBlockStop").isSome then none
  else
    match textAt value ["messageStop", "stopReason"] with
    | some stop => some (.finishReason stop none)
    | none =>
      match pointer? value ["metadata", "usage"] with
      | some usage => some (usageEvent (usageFromConverse usage))
      | none =>
        match serviceTierFrom value with
        | some tier => some (.serviceTier tier)
        | none =>
          if (value.get? "messageStart").isSome then none else some (.unknown "converse" value)

def decode (value : Value) : Except MapError (Option IrStreamEvent) :=
  match completeExceptionDetail value with
  | some detail => .error (.invalid detail)
  | none =>
    match (pointer? value ["contentBlockDelta", "delta"]).bind (decodeDelta value) with
    | some found => found.map some
    | none =>
      match decodeStart value with
      | some found => found
      | none => .ok (decodeBracket value)

def metadataKeys : List String :=
  ["additionalModelResponseFields", "metrics", "trace", "performanceConfig"]

def decodeMetadataEvents (value : Value) : List IrStreamEvent :=
  let source := (value.get? "metadata").getD value
  ((serviceTierFrom value).map .serviceTier).toList ++
    (metadataKeys.filterMap fun key =>
      ((source.get? key).filter fun fields => !fields.isNull).map (protocol key)) ++
    ((pointer? value ["metadata", "usage"]).map fun usage =>
      usageEvent (usageFromConverse usage)).toList

end Wiremux.ConverseDecoding
