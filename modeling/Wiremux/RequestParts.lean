import Wiremux.MessagesSampling
import Wiremux.StreamEvents

set_option autoImplicit false

/-!
# Parts of a request

The parts of user, assistant and tool turns, and what the encoders ask about them.
-/
namespace Wiremux.RequestParts
open JsonValue Losses

inductive IrDocumentSource where
  | base64 (data : String)
  | text (data : String)
  | url (url : String)
  | s3 (uri : String) (bucketOwner : Option String)
  | fileId (id : String)

inductive IrPart where
  | text (text : String)
  | imageUrl (url : String) (detail bucketOwner fileId : Option String)
  | imageBase64 (mediaType data : String)
  | thinking (text : String) (signature : Option String)
  | raw (typeName : String) (raw : Value)
  | document (source : IrDocumentSource) (mediaType : String) (name : Option String)
      (citationsEnabled : Option Bool) (context : Option String)
  | audio (data format : String)
  | promptCacheBreakpoint (mode : String) (inner : IrPart)

def peeled : IrPart → IrPart
  | .promptCacheBreakpoint _ inner => peeled inner
  | part => part

def peelPromptCache : IrPart → IrPart × Option String
  | .promptCacheBreakpoint mode inner => (inner, some mode)
  | part => (part, none)

def modes : IrPart → List String
  | .promptCacheBreakpoint mode inner => mode :: modes inner
  | _ => []

def dropped (path detail : String) : LossEvent := ⟨path, .drop, detail⟩

def droppedMode (mode : String) : LossReport :=
  if mode.isEmpty then []
  else [dropped "part.prompt_cache_breakpoint" "prompt cache breakpoint has no slot"]

def dropPromptCacheModes (part : IrPart) : LossReport := (modes part).flatMap droppedMode

def noteRoleBreakpoint (mode : Option String) : LossReport := (mode.map droppedMode).getD []

def isSome (text : Option String) : Bool := text.any fun t => !t.isEmpty

def noteDroppedImageDetail (detail : Option String) (wire : String) : LossReport :=
  if isSome detail then [dropped "part.image.detail" s!"image detail has no {wire} slot"] else []

def imageFileIdWithoutUrl (url : String) (fileId : Option String) : Bool :=
  url.isEmpty && isSome fileId

def startsWith (start text : String) : Bool := start.toList.isPrefixOf text.toList

def splitDataUrl (url : String) : Option (String × String) :=
  if startsWith "data:" url then
    (MessagesSampling.splitOnce ";base64,".toList (url.toList.drop 5)).map fun halves =>
      (String.ofList halves.1, String.ofList halves.2)
  else none

def isPdfMediaType (media : String) : Bool :=
  ["application/pdf", "application/x-pdf", "pdf"].contains (asciiLower media)

def isAudioMediaType (media : String) : Bool := startsWith "audio/" (asciiLower media)

def isImageMediaType (media : String) : Bool := startsWith "image/" (asciiLower media)

def audioFormatFromMime (mime : String) : String :=
  match MessagesSampling.splitOnce ['/'] mime.toList with
  | some (_, rest) => if rest.isEmpty then mime else String.ofList rest
  | none => mime

def functionResponseMimeAllowed (mime : String) : Bool :=
  isImageMediaType mime || isPdfMediaType mime || asciiLower mime == "text/plain"

def documentRefSource (uri : String) : IrDocumentSource :=
  if ["http://", "https://", "s3://", "gs://"].any fun scheme => startsWith scheme (asciiLower uri) then
    .url uri
  else .fileId uri

def partHasMediaHint (raw : Value) : Bool :=
  ["mediaResolution", "mediaProcessing", "videoMetadata", "audioTranscription", "speechMetadata",
    "partMetadata", "thoughtSignature"].any fun key => (raw.get? key).isSome

def plainDocument (source : IrDocumentSource) (media : String) : IrPart :=
  .document source media none none none

def plainInline (inline : Value) : Option IrPart :=
  let media := (inline.strAt? "mimeType").getD ""
  let data := (inline.strAt? "data").getD ""
  if data.isEmpty then none
  else if isAudioMediaType media then some (.audio data (audioFormatFromMime media))
  else if isPdfMediaType media then some (plainDocument (.base64 data) media)
  else some (.imageBase64 media data)

def plainFile (file : Value) : Option IrPart :=
  let media := (file.strAt? "mimeType").getD ""
  let uri := (file.strAt? "fileUri").getD ""
  if isPdfMediaType media && !uri.isEmpty then some (plainDocument (documentRefSource uri) media)
  else none

/-- A Gemini part that was kept whole for its hints, without them. -/
def plainMediaPart (raw : Value) : Option IrPart :=
  if !partHasMediaHint raw then none
  else match raw.get? "inlineData" with
    | some inline => plainInline inline
    | none =>
      match raw.strAt? "text" with
      | some text => some (.text text)
      | none => (raw.get? "fileData").bind plainFile

structure FunctionResponseInline where
  mime : String
  data : String
  displayName : Option String

/-- The bytes that a part could carry, before they are looked at. -/
def inlineBytes : IrPart → Option FunctionResponseInline
  | .imageBase64 mediaType data => some ⟨mediaType, data, none⟩
  | .imageUrl url _ _ _ => (splitDataUrl url).map fun halves => ⟨halves.1, halves.2, none⟩
  | .document (.base64 data) mediaType name _ _ => some ⟨mediaType, data, name⟩
  | .raw _ raw =>
    (raw.get? "inlineData").bind fun inline =>
      (inline.strAt? "mimeType").bind fun mime =>
        (inline.strAt? "data").map fun data => ⟨mime, data, inline.strAt? "displayName"⟩
  | _ => none

def functionResponseInline (part : IrPart) : Option FunctionResponseInline :=
  ((inlineBytes part).filter fun inline =>
      !isBlank inline.data && functionResponseMimeAllowed inline.mime).map fun inline =>
    { inline with displayName := inline.displayName.filter fun name => !name.isEmpty }

def functionResponseImage (part : IrPart) : Option (String × String) :=
  ((functionResponseInline part).filter fun inline => isImageMediaType inline.mime).map fun inline =>
    (inline.mime, inline.data)

def isGeminiFileRaw (raw : Value) : Bool :=
  (raw.get? "fileData").isSome || (raw.get? "fileUri").isSome

def messagesRawPassthrough (raw : Value) : Bool :=
  isSome (raw.strAt? "type") && !isGeminiFileRaw raw

def offDialectRawPath (raw : Value) : String :=
  if (raw.get? "fileData").isSome then "item.part.fileData"
  else if (raw.get? "fileUri").isSome then "item.part.fileUri"
  else "item.part.raw"

def systemPart (part : IrPart) : List String × LossReport :=
  match peeled part with
  | .text value => ([value], [])
  | .thinking text _ => ([text], [])
  | .promptCacheBreakpoint _ _ => ([], [])
  | .imageUrl _ _ _ _ | .imageBase64 _ _ =>
    ([], [dropped "part.image" "system role has no image slot"])
  | .document _ _ _ _ _ => ([], [dropped "part.document" "system role has no document slot"])
  | .audio _ _ => ([], [dropped "part.audio" "system role has no audio slot"])
  | .raw _ _ => ([], [dropped "part.raw" "system role has no slot"])

def join : List String → String
  | [] => ""
  | t :: rest => t ++ join rest

/-- What the IR keeps of a system or developer message. -/
structure RoleText where
  text : String
  promptCacheBreakpoint : Option String
  contentParts : List IrPart

def systemRoleText (r : RoleText) : String × LossReport :=
  if r.contentParts.isEmpty then (r.text, [])
  else (join (r.contentParts.flatMap fun part => (systemPart part).1),
    r.contentParts.flatMap fun part => (systemPart part).2)

variable (sj : SerdeJson)

def functionOutputJsonText (part : IrPart) : Option String :=
  match peeled part with
  | .raw typeName raw => if typeName = "json" then some (sj.toString raw) else none
  | _ => none

/-- The text parts carry the prose of a result. -/
def orderedText (parts : List IrPart) : Bool :=
  parts.any fun
    | .text text => !text.isEmpty
    | _ => false

def topLevelTextOrJson (part : IrPart) : Option String :=
  match part with
  | .text piece => if piece.isEmpty then functionOutputJsonText sj part else some piece
  | part => functionOutputJsonText sj part

def appendPiece (text piece : String) : String :=
  if text.isEmpty then piece else text ++ "\n" ++ piece

def functionOutputText (output : String) (parts : List IrPart) : String :=
  if orderedText parts then (parts.filterMap (topLevelTextOrJson sj)).foldl appendPiece ""
  else (parts.filterMap (functionOutputJsonText sj)).foldl appendPiece output

end Wiremux.RequestParts
