import Wiremux.RequestParts
import Wiremux.ToolArguments

set_option autoImplicit false

/-!
# Parts in a Messages body

What the encoder writes for a part, for reasoning and for the two kinds of tool
blocks, each with what it drops.
-/
namespace Wiremux.MessagesParts
open JsonValue Losses RequestParts

def textBlock (text : String) : Value := .object [("type", "text"), ("text", text)]

def base64Image (mediaType data : String) : Value :=
  .object [("type", "image"),
    ("source", .object [("type", "base64"), ("media_type", mediaType), ("data", data)])]

def trimmed (text : Option String) : Option String :=
  (text.map trim).filter fun t => !t.isEmpty

def mediaTypeOr (default mediaType : String) : String :=
  if mediaType.isEmpty then default else mediaType

def documentSource (source : IrDocumentSource) (mediaType : String) : Value :=
  match source with
  | .base64 data => .object [("type", "base64"),
      ("media_type", mediaTypeOr "application/pdf" mediaType), ("data", data)]
  | .text data => .object [("type", "text"),
      ("media_type", mediaTypeOr "text/plain" mediaType), ("data", data)]
  | .url url => .object [("type", "url"), ("url", url)]
  | .s3 uri _ => .object [("type", "url"), ("url", uri)]
  | .fileId id => .object [("type", "file"), ("file_id", id)]

def encodeDocument (source : IrDocumentSource) (mediaType : String) (name : Option String) : Value :=
  ((Value.object [("type", "document")]).insertSome "title"
    ((trimmed name).map .string)).insert "source" (documentSource source mediaType)

def droppedDocument : IrDocumentSource → Option String
  | .base64 data => if isBlank data then some "document data is empty" else none
  | .fileId id => if isBlank id then some "file id is empty" else none
  | .s3 _ _ => some "S3 document has no Messages slot"
  | _ => none

def encodeImageUrl (url : String) (detail fileId : Option String) : Option Value × LossReport :=
  if isBlank url then
    if fileId.any fun id => !isBlank id then (none, [dropped "part.image.file_id" "no slot"])
    else (none, [dropped "part.image" "image url is empty"])
  else if imageFileIdWithoutUrl url fileId then (none, [dropped "part.image.file_id" "no slot"])
  else
    let noted := noteDroppedImageDetail detail "messages"
    match splitDataUrl url with
    | some (mediaType, data) =>
      if isBlank data then (none, noted ++ [dropped "part.image" "image data is empty"])
      else (some (base64Image mediaType data), noted)
    | none =>
      (some (.object [("type", "image"), ("source", .object [("type", "url"), ("url", url)])]), noted)

/-- A part that is neither raw nor marked. -/
def encodePlain : IrPart → Option Value × LossReport
  | .text text => if isBlank text then (none, []) else (some (textBlock text), [])
  | .imageUrl url detail _ fileId => encodeImageUrl url detail fileId
  | .imageBase64 mediaType data =>
    if isBlank data then (none, [dropped "part.image" "image data is empty"])
    else (some (base64Image mediaType data), [])
  | .document source mediaType name citationsEnabled context =>
    match droppedDocument source with
    | some detail => (none, [dropped "part.document" detail])
    | none =>
      (some (((encodeDocument source mediaType name).insertSome "citations"
        (citationsEnabled.map fun enabled => .object [("enabled", .bool enabled)])).insertSome
          "context" ((trimmed context).map .string)), [])
  | .audio _ _ => (none, [dropped "part.audio" "audio has no Messages slot"])
  | .thinking text signature =>
    match signature.filter fun sig => !sig.isEmpty with
    | none => (none, [dropped "part.thinking" "unsigned thinking is not replayed"])
    | some sig =>
      (some (.object [("type", "thinking"), ("thinking", text), ("signature", sig)]), [])
  | .raw _ _ | .promptCacheBreakpoint _ _ => (none, [])

def encodeRaw (typeName : String) (raw : Value) : Option Value × LossReport :=
  match plainMediaPart raw with
  | some plain =>
    let encoded := encodePlain plain
    (encoded.1, dropped "part.media_hint" "no slot" :: encoded.2)
  | none =>
    match functionResponseImage (.raw typeName raw) with
    | some (mediaType, data) => (some (base64Image mediaType data), [])
    | none =>
      if messagesRawPassthrough raw then (some raw, [])
      else (none, [dropped (offDialectRawPath raw) "raw part is not Messages-shaped"])

def encodePart : IrPart → Option Value × LossReport
  | .promptCacheBreakpoint mode inner =>
    let encoded := encodePart inner
    (encoded.1, encoded.2 ++ droppedMode mode)
  | .raw typeName raw => encodeRaw typeName raw
  | part => encodePlain part

def encodeParts (parts : List IrPart) : List Value × LossReport :=
  (parts.filterMap fun part => (encodePart part).1, parts.flatMap fun part => (encodePart part).2)

def reasoningBlock (encrypted summary : Option String) (raw : Option Value) : Option Value :=
  match raw.filter fun value => value.strAt? "type" == some "thinking" with
  | some value => some value
  | none =>
    (summary.or (raw.bind fun value => value.strAt? "summary")).map fun text =>
      (Value.object [("type", "thinking"), ("thinking", text)]).insertSome "signature"
        (encrypted.map .string)

variable (sj : SerdeJson)

/-- One part in the content of a result; a JSON payload is part of the text. -/
def resultPart (ordered : Bool) (part : IrPart) : List Value × LossReport :=
  match part with
  | .text text => (if ordered && !text.isEmpty then [textBlock text] else [], [])
  | .raw typeName raw =>
    if typeName = "json" then (if ordered then [textBlock (sj.toString raw)] else [], [])
    else ((encodePart part).1.toList, (encodePart part).2)
  | .promptCacheBreakpoint _ _ =>
    match functionOutputJsonText sj part with
    | some json => (if ordered then [textBlock json] else [], dropPromptCacheModes part)
    | none => ((encodePart part).1.toList, (encodePart part).2)
  | part => ((encodePart part).1.toList, (encodePart part).2)

/-- The text of a result without text parts. -/
def leadingText (output : String) (parts : List IrPart) : String :=
  if orderedText parts then "" else functionOutputText sj output parts

/-- The blocks of a result with parts. -/
def resultBlocks (output : String) (parts : List IrPart) : List Value :=
  (if (leadingText sj output parts).isEmpty then [] else [textBlock (leadingText sj output parts)]) ++
    parts.flatMap fun part => (resultPart sj (orderedText parts) part).1

def resultContent (output : String) (parts : List IrPart) : Value × LossReport :=
  if parts.isEmpty then (.string (leadingText sj output parts), [])
  else
    let blocks := resultBlocks sj output parts
    (if blocks.isEmpty then .string output else .array blocks,
      parts.flatMap fun part => (resultPart sj (orderedText parts) part).2)

end Wiremux.MessagesParts
