import Wiremux.DocumentNames

set_option autoImplicit false

/-!
# Parts in a Converse body

What the encoder writes for a part of a turn and for a part of a tool result, each
with what it drops.
-/
namespace Wiremux.ConverseParts
open JsonValue Losses RequestParts DocumentNames

def stripPrefix (start text : String) : String :=
  if startsWith start text then String.ofList (text.toList.drop start.length) else text

def converseDocumentFormat (mediaType : String) : Option String :=
  match asciiLower mediaType with
  | "application/pdf" | "application/x-pdf" | "pdf" => some "pdf"
  | "text/csv" | "csv" => some "csv"
  | "application/msword" | "doc" => some "doc"
  | "application/vnd.openxmlformats-officedocument.wordprocessingml.document" | "docx" => some "docx"
  | "application/vnd.ms-excel" | "xls" => some "xls"
  | "application/vnd.openxmlformats-officedocument.spreadsheetml.sheet" | "xlsx" => some "xlsx"
  | "text/html" | "html" => some "html"
  | "text/plain" | "txt" => some "txt"
  | "text/markdown" | "md" => some "md"
  | _ => none

def converseImageFormat (mediaType : String) : Option String :=
  match stripPrefix "image/" (asciiLower mediaType) with
  | "png" => some "png"
  | "jpeg" | "jpg" => some "jpeg"
  | "gif" => some "gif"
  | "webp" => some "webp"
  | _ => none

def urlExtension (url : String) : String :=
  let path := url.toList.takeWhile fun c => c ≠ '?' ∧ c ≠ '#'
  if '.' ∈ path then asciiLower (String.ofList (path.reverse.takeWhile (· ≠ '.')).reverse) else ""

def converseImageFormatFromUrl (url : String) : String :=
  match urlExtension url with
  | "png" => "png"
  | "jpg" | "jpeg" => "jpeg"
  | "gif" => "gif"
  | "webp" => "webp"
  | _ => "png"

def audioFormats : List String :=
  ["mp3", "opus", "wav", "aac", "flac", "mp4", "ogg", "mkv", "mka", "x-aac", "m4a", "mpeg", "mpga",
    "pcm", "webm"]

def converseAudioFormat (format : String) : Option String :=
  let lower := stripPrefix "audio/" (asciiLower format)
  if audioFormats.contains lower then some lower else none

/-- A block is an object with one member. -/
def block (key : String) (value : Value) : Value := .object [(key, value)]

def textBlock (text : String) : Value := block "text" (.string text)

def mediaBlock (key format : String) (source : Value) : Value :=
  block key (.object [("format", format), ("source", source)])

def bytesSource (data : String) : Value := .object [("bytes", data)]

def s3Source (uri : String) (bucketOwner : Option String) : Value :=
  .object [("s3Location", (Value.object [("uri", uri)]).insertSome "bucketOwner"
    ((bucketOwner.filter fun owner => !owner.isEmpty).map .string))]

def encodeImageBytes (mediaType data : String) : Option Value × LossReport :=
  if isBlank data then (none, [dropped "part.image" "image data is empty"])
  else match converseImageFormat mediaType with
    | none => (none, [dropped "part.image" "image format has no converse slot"])
    | some format => (some (mediaBlock "image" format (bytesSource data)), [])

def encodeImageUrl (url : String) (bucketOwner : Option String) : Option Value × LossReport :=
  if !startsWith "s3://" (asciiLower url) then
    (none, [dropped "part.image" "image url has no converse slot"])
  else (some (mediaBlock "image" (converseImageFormatFromUrl url) (s3Source url bucketOwner)), [])

def encodeAudio (data format : String) : Option Value × LossReport :=
  if isBlank data then (none, [dropped "part.audio" "audio data is empty"])
  else match converseAudioFormat format with
    | none => (none, [dropped "part.audio" "audio format has no converse slot"])
    | some format => (some (mediaBlock "audio" format (bytesSource data)), [])

/-- The source of a document with a format, or why it has none. -/
def documentSource : IrDocumentSource → Option Value
  | .base64 data => some (bytesSource data)
  | .url url => if startsWith "s3://" url then some (s3Source url none) else none
  | .s3 uri bucketOwner => some (s3Source uri bucketOwner)
  | _ => none

def documentBlock (format name : String) (source : Value) (citationsEnabled : Option Bool)
    (context : Option String) : Value :=
  block "document" (((Value.object [("format", format), ("name", name), ("source", source)]).insertSome
    "citations" (citationsEnabled.map fun enabled => .object [("enabled", .bool enabled)])).insertSome
      "context" (((context.map trim).filter fun t => !t.isEmpty).map .string))

def blankDocument : IrDocumentSource → Bool
  | .base64 data => isBlank data
  | _ => false

def encodeMediaDocument (source : IrDocumentSource) (mediaType : String) (name : Option String)
    (citationsEnabled : Option Bool) (context : Option String) : Option Value × LossReport :=
  if blankDocument source then (none, [dropped "part.document" "document data is empty"])
  else match converseDocumentFormat mediaType with
    | none => (none, [dropped "part.document" "document format has no converse slot"])
    | some format =>
      let named := converseDocumentName name
      match documentSource source with
      | some written => (some (documentBlock format named.1 written citationsEnabled context), named.2)
      | none => (none, named.2 ++ [dropped "part.document" "document url has no converse slot"])

def encodeDocument (source : IrDocumentSource) (mediaType : String) (name : Option String)
    (citationsEnabled : Option Bool) (context : Option String) : Option Value × LossReport :=
  match source with
  | .fileId _ => (none, [dropped "part.document" "document file_id has no converse slot"])
  | .text data =>
    if isBlank data then (none, [])
    else (some (textBlock data), [⟨"part.document", .degrade, "plain text document becomes text"⟩])
  | source => encodeMediaDocument source mediaType name citationsEnabled context

def reasoningText (text : String) (signature : Option String) : Value :=
  block "reasoningContent" (block "reasoningText" ((Value.object [("text", text)]).insertSome
    "signature" ((signature.filter fun s => !s.isEmpty).map .string)))

def encodeImageUrlPart (url : String) (detail bucketOwner fileId : Option String) :
    Option Value × LossReport :=
  if imageFileIdWithoutUrl url fileId then (none, [dropped "part.image.file_id" "no slot"])
  else
    let noted := noteDroppedImageDetail detail "converse"
    let encoded := match splitDataUrl url with
      | some (mediaType, data) => encodeImageBytes mediaType data
      | none => encodeImageUrl url bucketOwner
    (encoded.1, noted ++ encoded.2)

/-- A part that is neither raw nor marked. -/
def encodePlain : IrPart → Option Value × LossReport
  | .text text => if isBlank text then (none, []) else (some (textBlock text), [])
  | .thinking text signature => (some (reasoningText text signature), [])
  | .document source mediaType name citationsEnabled context =>
    encodeDocument source mediaType name citationsEnabled context
  | .audio data format => encodeAudio data format
  | .imageUrl url detail bucketOwner fileId => encodeImageUrlPart url detail bucketOwner fileId
  | .imageBase64 mediaType data => encodeImageBytes mediaType data
  | .raw _ _ | .promptCacheBreakpoint _ _ => (none, [])

def passedKinds : List String :=
  ["video", "audio", "cachePoint", "guardContent", "searchResult", "citationsContent"]

def encodeRaw (typeName : String) (raw : Value) : Option Value × LossReport :=
  if passedKinds.contains typeName && raw.isObject then (some (block typeName raw), [])
  else if typeName == "redactedContent" && raw.asStr?.any (fun blob => !blob.isEmpty) then
    (some (block "reasoningContent" (block "redactedContent" raw)), [])
  else match plainMediaPart raw with
    | some plain =>
      let encoded := encodePlain plain
      (encoded.1, dropped "part.media_hint" "no slot" :: encoded.2)
    | none => (none, [dropped "content" "converse image/raw dropped"])

def encodePart : IrPart → Option Value × LossReport
  | .promptCacheBreakpoint mode inner =>
    let encoded := encodePart inner
    (encoded.1, encoded.2 ++ droppedMode mode)
  | .raw typeName raw => encodeRaw typeName raw
  | part => encodePlain part

def isRawKind (kinds : List String) : IrPart → Bool
  | .raw typeName _ => kinds.contains typeName
  | _ => false

def isMedia : IrPart → Bool
  | .imageUrl _ _ _ _ | .imageBase64 _ _ | .document _ _ _ _ _ => true
  | _ => false

def hasMedia (parts : List IrPart) : Bool :=
  parts.any fun part => isMedia (peeled part) ||
    isRawKind ["video", "searchResult", "json"] (peeled part) ||
    (functionResponseImage (peeled part)).isSome

def isShownText (part : IrPart) : Bool :=
  match peeled part with
  | .text text => !text.isEmpty
  | _ => false

def resultRaw (idx : ℕ) (typeName : String) (raw : Value) : Option Value × LossReport :=
  if ["video", "searchResult"].contains typeName && raw.isObject then (some (block typeName raw), [])
  else if typeName = "json" then (some (block "json" raw), [])
  else match functionResponseImage (.raw typeName raw) with
    | some (mediaType, data) => encodeImageBytes mediaType data
    | none => (none, [dropped s!"items[{idx}].part" "no slot"])

def resultImageUrl (url : String) (detail bucketOwner fileId : Option String) :
    Option Value × LossReport :=
  if imageFileIdWithoutUrl url fileId then (none, [dropped "part.image.file_id" "no slot"])
  else
    let encoded := encodeImageUrl url bucketOwner
    (encoded.1, noteDroppedImageDetail detail "converse" ++ encoded.2)

def resultMarked (part : IrPart) : Option Value × LossReport :=
  match peeled part with
  | .raw typeName raw =>
    if typeName = "json" then (some (block "json" raw), dropPromptCacheModes part)
    else encodePart part
  | _ => encodePart part

def resultPart (idx : ℕ) (part : IrPart) : Option Value × LossReport :=
  match part with
  | .text text => (if text.isEmpty then none else some (textBlock text), [])
  | .imageUrl url detail bucketOwner fileId => resultImageUrl url detail bucketOwner fileId
  | .imageBase64 mediaType data => encodeImageBytes mediaType data
  | .document source mediaType name citationsEnabled context =>
    encodeDocument source mediaType name citationsEnabled context
  | .raw typeName raw => resultRaw idx typeName raw
  | .promptCacheBreakpoint mode inner => resultMarked (.promptCacheBreakpoint mode inner)
  | .thinking _ _ | .audio _ _ => (none, [dropped s!"items[{idx}].part" "no slot"])

/-- The text in front of the parts, and what is said of it. -/
def leadingText (idx : ℕ) (output : String) (parts : List IrPart) : String × LossReport :=
  if isBlank output && !hasMedia parts && !parts.any isShownText then
    (".", [⟨s!"items[{idx}]", .degrade, "empty content became '.'"⟩])
  else if parts.any isShownText then ("", [])
  else (output, [])

def writtenBlocks (idx : ℕ) (output : String) (parts : List IrPart) : List Value :=
  (if (leadingText idx output parts).1.isEmpty then []
    else [textBlock (leadingText idx output parts).1]) ++
    parts.filterMap fun part => (resultPart idx part).1

def resultContent (idx : ℕ) (output : String) (parts : List IrPart) : List Value × LossReport :=
  (if (writtenBlocks idx output parts).isEmpty then [textBlock "."] else writtenBlocks idx output parts,
    (leadingText idx output parts).2 ++ parts.flatMap fun part => (resultPart idx part).2)

def toolResult (callId : String) (isError : Bool) (content : List Value) : Value :=
  block "toolResult" ((Value.object [("toolUseId", callId), ("content", .array content)]).insertSome
    "status" (if isError then some "error" else none))

end Wiremux.ConverseParts
