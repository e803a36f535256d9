import Wiremux.MessagesItems

set_option autoImplicit false

/-!
# The contents of a Gemini request

`decode_content` reads the parts of one content into items. A function response
without an id is given the id of a call by `unmatched_call_id`, which walks the
items backwards.
-/
namespace Wiremux.GeminiContents
open JsonValue RequestParts MessagesItems

/-- What one part of a content is read as. -/
inductive Piece where
  | call (id : Option String) (name arguments : String) (thoughtSignature : Option String)
  | response (id : Option String) (name output : String) (parts : List IrPart)
  | shown (parts : List IrPart)

structure Content where
  model : Bool
  pieces : List Piece

variable (sj : SerdeJson)

def nonemptyStr (value : Value) (key : String) : Option String :=
  (value.strAt? key).filter fun t => !t.isEmpty

def readCall (part fc : Value) : Piece :=
  .call (nonemptyStr fc "id") ((fc.strAt? "name").getD "")
    (sj.toString ((fc.get? "args").getD (.object []))) (nonemptyStr part "thoughtSignature")

def readInlineResult (part : Value) : Option IrPart :=
  (part.get? "inlineData").bind fun inline =>
    let media := (inline.strAt? "mimeType").getD ""
    let data := (inline.strAt? "data").getD ""
    let name := nonemptyStr inline "displayName"
    if data.isEmpty then none
    else if isPdfMediaType media || asciiLower media == "text/plain" then
      some (.document (.base64 data) media name none none)
    else if isImageMediaType media && name.isNone then some (.imageBase64 media data)
    else some (.raw "functionResponse.inlineData" (.object [("inlineData", inline)]))

def decodeFunctionResponseParts (fr : Value) : List IrPart :=
  (((fr.get? "parts").bind Value.asArray?).getD []).filterMap readInlineResult

def readResponse (fr : Value) : Piece :=
  .response (nonemptyStr fr "id") ((fr.strAt? "name").getD "")
    (((fr.get? "response").map sj.toString).getD "\x7b\x7d") (decodeFunctionResponseParts fr)

def readThought (part : Value) : List IrPart :=
  ((part.strAt? "text").map fun text => IrPart.thinking text (part.strAt? "thoughtSignature")).toList

def readText (part : Value) : List IrPart :=
  ((part.strAt? "text").map fun text =>
    if partHasMediaHint part then IrPart.raw "text" part else .text text).toList

/-- Inline data with a hint is kept whole, and ends the part. -/
def hintedInline (part : Value) : Bool := (part.get? "inlineData").isSome && partHasMediaHint part

def readInline (part : Value) : List IrPart :=
  ((part.get? "inlineData").map fun inline =>
    let media := (inline.strAt? "mimeType").getD ""
    let data := (inline.strAt? "data").getD ""
    if partHasMediaHint part then IrPart.raw "inlineData" part
    else if isAudioMediaType media then .audio data (audioFormatFromMime media)
    else if isPdfMediaType media then plainDocument (.base64 data) media
    else .imageBase64 media data).toList

def readFile (part : Value) : List IrPart :=
  match part.get? "fileData" with
  | some file =>
    let media := (file.strAt? "mimeType").getD ""
    let uri := (file.strAt? "fileUri").getD ""
    if isPdfMediaType media && !uri.isEmpty && !partHasMediaHint part then
      [plainDocument (documentRefSource uri) media]
    else [.raw "fileData" part]
  | none => if (part.get? "fileUri").isSome then [.raw "fileUri" part] else []

/-- The first key of the two that is there, as a raw part. -/
def readEither (first second : String) (part : Value) : List IrPart :=
  if (part.get? first).isSome then [.raw first part]
  else if (part.get? second).isSome then [.raw second part]
  else []

def readShown (part : Value) : List IrPart :=
  if (part.get? "thought").bind Value.asBool? = some true then readThought part
  else readText part ++ readInline part ++
    if hintedInline part then []
    else readFile part ++ readEither "executableCode" "codeExecutionResult" part ++
      readEither "toolCall" "toolResponse" part

def readPart (part : Value) : Piece :=
  match part.get? "functionCall" with
  | some fc => readCall sj part fc
  | none =>
    match part.get? "functionResponse" with
    | some fr => readResponse sj fr
    | none => .shown (readShown part)

def readContent (content : Value) : Content where
  model := (content.strAt? "role").getD "user" == "model"
  pieces := (((content.get? "parts").bind Value.asArray?).getD []).map (readPart sj)

def outputId : IrItem → Option String
  | .functionOutput callId _ _ _ => some callId
  | _ => none

def outputIds (items : List IrItem) : List String := items.filterMap outputId

def callOf : IrItem → Option (String × String)
  | .functionCall callId name _ _ => some (name, callId)
  | _ => none

def isUser : IrItem → Bool
  | .user _ => true
  | _ => false

/-- An item that ends the walk backwards through a model turn. -/
def isBoundary : IrItem → Bool
  | .user _ | .developer _ | .functionOutput _ _ _ _ | .system _ => true
  | _ => false

def unmatchedId (name : String) (used : List String) (item : IrItem) : Option String :=
  (callOf item).bind fun call => if call.1 = name ∧ call.2 ∉ used then some call.2 else none

/-- The last item first: a user item that stands in front is dropped. -/
def dropUser : List IrItem → List IrItem
  | item :: rest => if isUser item then rest else item :: rest
  | [] => []

/-- A user item behind the model turn, when there are outputs behind it. -/
def dropTurnUser : List IrItem → List IrItem
  | item :: before :: rest =>
    if isUser item && !isBoundary before then before :: rest else item :: before :: rest
  | items => items

def unmatchedCallId (items : List IrItem) (name : String) (skipTrailingUser : Bool) : Option String :=
  let behind := if skipTrailingUser then dropUser items.reverse else items.reverse
  let front := behind.dropWhile IrItem.isOutput
  let turn := if front.length < behind.length then dropTurnUser front else front
  (turn.takeWhile fun item => !isBoundary item).reverse.findSome?
    (unmatchedId name (outputIds items))

/-- The role of the content, its parts since the last item, and the items. -/
structure Decoding where
  model : Bool
  textParts : List IrPart
  items : List IrItem

def Decoding.push (d : Decoding) (item : IrItem) : Decoding := { d with items := d.items ++ [item] }

def flushParts (d : Decoding) : Decoding :=
  if d.textParts.isEmpty then d
  else { d with
    textParts := []
    items := d.items ++ [if d.model then .assistant d.textParts none else .user d.textParts] }

def geminiCallId (id : Option String) (name : String) (seq : ℕ) : String :=
  id.getD (name ++ "#" ++ toString seq)

def decodePiece (d : Decoding) : Piece → Decoding
  | .call id name arguments signature =>
    let d := flushParts d
    d.push (.functionCall (geminiCallId id name d.items.length) name arguments signature)
  | .response id name output parts =>
    let skipTrailingUser := !d.model && !d.textParts.isEmpty
    let d := flushParts d
    let callId := (id.or (unmatchedCallId d.items name skipTrailingUser)).getD name
    d.push (.functionOutput callId output parts false)
  | .shown parts => { d with textParts := d.textParts ++ parts }

def decodeContent (d : Decoding) (content : Content) : Decoding :=
  flushParts (content.pieces.foldl decodePiece ⟨content.model, [], d.items⟩)

def decodeContents (items : List IrItem) (contents : List Content) : List IrItem :=
  (contents.foldl decodeContent ⟨false, [], items⟩).items

def systemText (value : Option Value) : Option String :=
  let text := RequestParts.join (((((value.bind fun v => v.get? "parts").bind Value.asArray?).getD [])).filterMap
    fun part => part.strAt? "text")
  if text.isEmpty then none else some text

def systemItems (body : Value) : List IrItem :=
  ((systemText (body.get? "systemInstruction")).map fun text => IrItem.system ⟨text, none, []⟩).toList

/-- The items of a request body. -/
def decode (body : Value) : List IrItem :=
  decodeContents (systemItems body)
    ((((body.get? "contents").bind Value.asArray?).getD []).map (readContent sj))

end Wiremux.GeminiContents
