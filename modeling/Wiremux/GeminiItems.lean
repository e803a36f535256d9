import Wiremux.MessagesItems
import Wiremux.TurnLists

set_option autoImplicit false

/-!
# The contents of a Gemini request

Each part goes to the last content while the role stays the same.
-/
namespace Wiremux.GeminiItems
open JsonValue FrameDecoding Losses RequestParts TurnLists
open MessagesItems (IrItem itemPath)

inductive Role where
  | user
  | model
deriving DecidableEq

def Role.name : Role → String
  | .user => "user"
  | .model => "model"

abbrev Content := Turn Role Value

def contentJson (content : Content) : Value :=
  .object [("role", content.role.name), ("parts", .array content.content)]

def textPart (text : String) : Value := .object [("text", text)]

def inlineData (mimeType data : String) : Value :=
  .object [("inlineData", .object [("mimeType", mimeType), ("data", data)])]

def fileData (uri mediaType : String) : Value :=
  .object [("fileData", (Value.object [("fileUri", uri)]).insertSome "mimeType"
    (if mediaType.isEmpty then none else some (.string mediaType)))]

def audioMimeFromFormat (format : String) : String :=
  if format.toList.contains '/' then format else "audio/" ++ format

def encodeDocument (source : IrDocumentSource) (mediaType : String) : Option Value × LossReport :=
  match source with
  | .text data =>
    (some (textPart data), [⟨"part.document", .degrade, "plain text document becomes text"⟩])
  | .base64 data =>
    if isBlank data then (none, [dropped "part.document" "document data is empty"])
    else (some (inlineData mediaType data), [])
  | .fileId id =>
    if isBlank id then (none, [dropped "part.document" "file id is empty"])
    else (some (fileData id mediaType), [])
  | .s3 _ _ => (none, [dropped "part.document" "S3 document has no Gemini slot"])
  | .url uri => (some (fileData uri mediaType), [])

def blankInline (kind : String) (raw : Value) : Bool :=
  (textAt raw ["inlineData", "mimeType"]).any (fun mime => startsWith kind (asciiLower mime)) &&
    (textAt raw ["inlineData", "data"]).any isBlank

def partKeys : List String :=
  ["fileData", "fileUri", "inlineData", "executableCode", "codeExecutionResult", "toolCall",
    "toolResponse", "audioTranscription", "speechMetadata", "partMetadata", "thoughtSignature"]

def encodeRaw (raw : Value) : Option Value × LossReport :=
  if blankInline "audio/" raw then (none, [dropped "part.audio" "audio data is empty"])
  else if blankInline "image/" raw then (none, [dropped "part.image" "image data is empty"])
  else if partKeys.any fun key => (raw.get? key).isSome then (some raw, [])
  else (none, [dropped "part.raw" "raw part has no generateContent slot"])

def encodeImageUrl (url : String) (detail fileId : Option String) : Option Value × LossReport :=
  if isBlank url then
    if fileId.any fun id => !isBlank id then (none, [dropped "part.image.file_id" "no slot"])
    else (none, [dropped "part.image" "image url is empty"])
  else
    let noted := noteDroppedImageDetail detail "gemini"
    match splitDataUrl url with
    | some (mime, data) =>
      if isBlank data then (none, noted ++ [dropped "part.image" "image data is empty"])
      else (some (inlineData mime data), noted)
    | none => (some (textPart ("[image: " ++ url ++ "]")),
        noted ++ [⟨"part.image_url", .degrade, "url to text placeholder"⟩])

def encodePart : IrPart → Option Value × LossReport
  | .text text => (some (textPart text), [])
  | .thinking text signature =>
    (some ((Value.object [("text", text), ("thought", .bool true)]).insertSome "thoughtSignature"
      (signature.map .string)), [])
  | .imageBase64 mediaType data =>
    if isBlank data then (none, [dropped "part.image" "image data is empty"])
    else (some (inlineData mediaType data), [])
  | .document source mediaType _ _ _ => encodeDocument source mediaType
  | .audio data format =>
    if isBlank data then (none, [dropped "part.audio" "audio data is empty"])
    else (some (inlineData (audioMimeFromFormat format) data), [])
  | .raw _ raw => encodeRaw raw
  | .imageUrl url detail _ fileId => encodeImageUrl url detail fileId
  | .promptCacheBreakpoint mode inner =>
    let encoded := encodePart inner
    (encoded.1, encoded.2 ++ droppedMode mode)

def encodeParts (parts : List IrPart) : List Value × LossReport :=
  (parts.filterMap fun part => (encodePart part).1, parts.flatMap fun part => (encodePart part).2)

structure Encoding where
  systemParts : List Value
  contents : List Content
  /-- The ids and names of the calls so far. -/
  callNames : List (String × String)
  report : LossReport

namespace Encoding

def note (s : Encoding) (events : LossReport) : Encoding := { s with report := s.report ++ events }

def pushRolePart (role : Role) (part : Value) (s : Encoding) : Encoding :=
  { s with contents := joinOrPush role id [part] s.contents }

end Encoding

def pushParts (role : Role) (parts : List Value) (s : Encoding) : Encoding :=
  parts.foldl (fun s part => s.pushRolePart role part) s

def pushEncodedTurn (role : Role) (parts : List IrPart) (idx : ℕ) (s : Encoding) : Encoding :=
  let encoded := encodeParts parts
  let s := s.note encoded.2
  if encoded.1.isEmpty then s.note [dropped (itemPath idx) "empty turn has no gemini parts"]
  else
    let joined := if lastRole s.contents = some role then
      [⟨itemPath idx, .degrade, "consecutive turns with the same role were joined"⟩] else []
    pushParts role encoded.1 (s.note joined)

def roleEvents (idx : ℕ) (developer : Bool) (r : RoleText) (s : Encoding) : LossReport :=
  MessagesItems.noteRole r ++
    (if s.contents.isEmpty then []
      else [⟨itemPath idx, .degrade, "system message moved out of the turn list"⟩]) ++
    (if developer then [⟨"item.developer", .degrade, "developer to systemInstruction"⟩] else []) ++
    (systemRoleText r).2

def encodeRole (idx : ℕ) (developer : Bool) (r : RoleText) (s : Encoding) : Encoding :=
  let text := (systemRoleText r).1
  let s := s.note (roleEvents idx developer r s)
  if text.isEmpty then s else { s with systemParts := s.systemParts ++ [textPart text] }

variable (sj : SerdeJson)

def encodeCall (callId name arguments : String) (signature : Option String) (s : Encoding) : Encoding :=
  let args := ToolArguments.jsonObjectOrRaw sj arguments "functionCall.args" s.report
    "tool arguments are not a JSON object" "raw"
  let call : Value :=
    .object [("functionCall", .object [("id", callId), ("name", name), ("args", args.1)])]
  let signed := signature.filter fun t => !t.isEmpty
  { s with callNames := s.callNames ++ [(callId, name)], report := args.2 }.pushRolePart .model
    (call.insertSome "thoughtSignature" (signed.map .string))

def responsePart (inline : FunctionResponseInline) : Value :=
  .object [("inlineData", (Value.object [("mimeType", inline.mime), ("data", inline.data)]).insertSome
    "displayName" (inline.displayName.map .string))]

/-- A part of a result that has bytes which are not sent. -/
def hasLostBytes : IrPart → Bool
  | .imageUrl _ _ _ _ | .imageBase64 _ _ | .audio _ _ => true
  | .raw _ raw => (raw.get? "inlineData").isSome
  | _ => false

def resultEvents (idx : ℕ) (part : IrPart) : LossReport :=
  dropPromptCacheModes part ++
    if (functionResponseInline (peeled part)).isSome then []
    else if hasLostBytes (peeled part) then [dropped s!"items[{idx}].part" "no slot"] else []

def nameOf (callNames : List (String × String)) (callId : String) : String :=
  ((callNames.reverse.find? fun call => call.1 = callId).map Prod.snd).getD callId

def encodeOutput (idx : ℕ) (callId output : String) (parts : List IrPart) (isError : Bool)
    (s : Encoding) : Encoding :=
  let s := s.note ((if isError then [dropped s!"items[{idx}].is_error" "no slot"] else []) ++
    parts.flatMap (resultEvents idx))
  let wireParts := (parts.map peeled).filterMap fun part =>
    (functionResponseInline part).map responsePart
  let response := ToolArguments.jsonObjectOrRaw sj (functionOutputText sj output (parts.map peeled))
    "functionResponse.response" s.report "tool output is not a JSON object" "result"
  let body : Value :=
    .object [("id", callId), ("name", nameOf s.callNames callId), ("response", response.1)]
  { s with report := response.2 }.pushRolePart .user (.object [("functionResponse",
    body.insertSome "parts" (if wireParts.isEmpty then none else some (.array wireParts)))])

def encodeReasoning (summary : Option String) (raw : Option Value) (s : Encoding) : Encoding :=
  let text := (summary.filter fun t => !t.isEmpty).or (raw.bind fun value => value.strAt? "summary")
  match text.filter fun t => !t.isEmpty with
  | some text => s.pushRolePart .model (.object [("text", text), ("thought", .bool true)])
  | none => s.note [dropped "item.reasoning" "reasoning omitted on generateContent"]

def noSlot (kind : String) : LossReport := [dropped "item.unknown" ("gemini cannot express " ++ kind)]

def encodeItem (idx : ℕ) (item : IrItem) (s : Encoding) : Encoding :=
  match item with
  | .systemCache _ => s.note [dropped (itemPath idx) "system cache point has no slot"]
  | .systemGuard _ => s.note [dropped (itemPath idx) "system guard content has no slot"]
  | .system r => encodeRole idx false r s
  | .developer r => encodeRole idx true r s
  | .user parts => pushEncodedTurn .user parts idx s
  | .assistant parts phase => pushEncodedTurn .model parts idx (s.note (MessagesItems.dropPhase idx phase))
  | .functionCall callId name arguments signature => encodeCall sj callId name arguments signature s
  | .customToolCall callId name input => encodeCall sj callId name input none s
  | .functionOutput callId output parts isError => encodeOutput sj idx callId output parts isError s
  | .reasoning _ summary raw => encodeReasoning summary raw s
  | .hostedToolCall kind _ => s.note (noSlot kind)
  | .unknown typeName _ => s.note (noSlot typeName)

def encodeFrom : ℕ → List IrItem → Encoding → Encoding
  | _, [], s => s
  | idx, item :: rest, s => encodeFrom (idx + 1) rest (encodeItem sj idx item s)

def encodeContents (items : List IrItem) : Encoding := encodeFrom sj 0 items ⟨[], [], [], []⟩

/-- Neighbours have different roles, and every content has a part. -/
structure Structured (contents : List Content) : Prop where
  alternating : Alternating (fun _ => False) contents
  nonempty : ∀ content ∈ contents, content.content ≠ []

variable {sj}

theorem structured_push {role : Role} {part : Value} {s : Encoding} (h : Structured s.contents) :
    Structured (s.pushRolePart role part).contents where
  alternating := joinOrPush_alternating h.alternating
  nonempty := joinOrPush_forall h.nonempty (List.cons_ne_nil _ _)
    fun _ _ => List.append_ne_nil_of_right_ne_nil _ (List.cons_ne_nil _ _)

theorem structured_pushParts {role : Role} {parts : List Value} {s : Encoding}
    (h : Structured s.contents) : Structured (pushParts role parts s).contents := by
  unfold pushParts
  induction parts generalizing s with
  | nil => exact h
  | cons part rest ih => exact ih (structured_push h)

theorem structured_turn {role : Role} {parts : List IrPart} {idx : ℕ} {s : Encoding}
    (h : Structured s.contents) : Structured (pushEncodedTurn role parts idx s).contents := by
  unfold pushEncodedTurn
  dsimp only
  split
  · exact h
  · exact structured_pushParts h

theorem structured_role {idx : ℕ} {developer : Bool} {r : RoleText} {s : Encoding}
    (h : Structured s.contents) : Structured (encodeRole idx developer r s).contents := by
  unfold encodeRole
  dsimp only
  split <;> exact h

theorem structured_reasoning {summary : Option String} {raw : Option Value} {s : Encoding}
    (h : Structured s.contents) : Structured (encodeReasoning summary raw s).contents := by
  unfold encodeReasoning
  dsimp only
  split
  · exact structured_push h
  · exact h

theorem structured_item (idx : ℕ) (item : IrItem) (s : Encoding) (h : Structured s.contents) :
    Structured (encodeItem sj idx item s).contents := by
  cases item with
  | system r => exact structured_role h
  | developer r => exact structured_role h
  | user parts => exact structured_turn h
  | assistant parts phase => exact structured_turn (s := s.note _) h
  | functionCall callId name arguments signature =>
    exact structured_push (s := { s with callNames := _, report := _ }) h
  | customToolCall callId name input =>
    exact structured_push (s := { s with callNames := _, report := _ }) h
  | functionOutput callId output parts isError =>
    exact structured_push (s := { s with report := _ }) h
  | reasoning encrypted summary raw => exact structured_reasoning h
  | _ => exact h

theorem structured_from (items : List IrItem) (idx : ℕ) (s : Encoding) (h : Structured s.contents) :
    Structured (encodeFrom sj idx items s).contents := by
  induction items generalizing idx s with
  | nil => exact h
  | cons item rest ih => exact ih (idx + 1) _ (structured_item idx item s h)

theorem structured_contents (items : List IrItem) : Structured (encodeContents sj items).contents :=
  structured_from items 0 _ ⟨List.isChain_nil, fun content hmem => by cases hmem⟩

end Wiremux.GeminiItems
