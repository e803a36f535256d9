import Wiremux.Completion
import Wiremux.RequestParts
import Wiremux.StreamEvents

set_option autoImplicit false

/-!
# System and developer text of a request

Chat and Responses bodies keep the text of a system or developer message twice: as one
string, and as parts in order. Every encoder picks one of the two for its system slot.
-/
namespace Wiremux.SystemText
open JsonValue StreamEvents Completion RequestParts

def textOf : IrPart → Option String
  | .text t => some t
  | _ => none

def textOrThinking : IrPart → Option String
  | .text t => some t
  | .thinking t _ => some t
  | _ => none

def withPromptCache (part : Option IrPart) (src : Value) : Option IrPart :=
  match part with
  | none => none
  | some part =>
    match (src.get? "prompt_cache_breakpoint").filter Value.isObject with
    | none => some part
    | some marker =>
      let mode := ((marker.strAt? "mode").map trim).filter (fun mode => !mode.isEmpty)
      some (.promptCacheBreakpoint (mode.getD "explicit") part)

/-- `decode_openai_file_part`. -/
def decodeFile (part : Value) : Option IrPart :=
  let file := (part.get? "file").getD part
  let name := ((file.strAt? "filename").or ((part.strAt? "filename").or
    ((file.strAt? "name").or (part.strAt? "name")))).filter fun name => !name.isEmpty
  let mediaType := ((file.strAt? "media_type").or (part.strAt? "media_type")).getD ""
  match (file.strAt? "file_id").or (part.strAt? "file_id") with
  | some id => some (.document (.fileId id) mediaType name none none)
  | none =>
    match (file.strAt? "file_url").or ((part.strAt? "file_url").or
        ((file.strAt? "url").or (part.strAt? "url"))) with
    | some url => some (.document (documentRefSource url) mediaType name none none)
    | none =>
      ((file.strAt? "file_data").or ((part.strAt? "file_data").or (file.strAt? "data"))).map fun data =>
        match splitDataUrl data with
        | some (dataType, payload) => .document (.base64 payload) dataType name none none
        | none => .document (.base64 data)
            (if mediaType.isEmpty then "application/pdf" else mediaType) name none none

def decodeInputAudio (part : Value) : Option IrPart :=
  let audio := (part.get? "input_audio").getD part
  (audio.strAt? "data").map fun data => .audio data ((audio.strAt? "format").getD "wav")

def decodeThinking (part : Value) : IrPart :=
  .thinking ((((part.get? "text").or (part.get? "thinking")).bind Value.asStr?).getD "")
    (part.strAt? "signature")

/-- The two wires whose system and developer messages are parts. -/
inductive SourceWire where
  | chatCompletions
  | responses

/-- A data URL with neither a detail nor a file id becomes bytes. -/
def imagePart (url : String) (detail fileId : Option String) : IrPart :=
  match (splitDataUrl url).filter fun _ => detail.isNone && fileId.isNone with
  | some (mediaType, data) => .imageBase64 mediaType data
  | none => .imageUrl url detail none fileId

/-- The URL of an `image_url`, which is a string or an object. -/
def imageUrl (part : Value) : Option String :=
  (part.get? "image_url").bind fun image => image.asStr?.or (image.strAt? "url")

def namedDetail (detail : String) : Bool := !detail.isEmpty && detail != "auto"

def chatImage (part : Value) : Option IrPart :=
  (imageUrl part).map fun url =>
    imagePart url (((part.get? "image_url").bind fun image => image.strAt? "detail").filter namedDetail)
      none

def responsesImage (part : Value) : Option IrPart :=
  let fileId := (part.strAt? "file_id").filter fun id => !id.isEmpty
  let detail := ((part.strAt? "detail").map trim).filter namedDetail
  let source := part.get? "source"
  match (imageUrl part).or (part.strAt? "url") with
  | some url => some (imagePart url detail fileId)
  | none =>
    match (part.strAt? "data").or (source.bind fun s => s.strAt? "data") with
    | some data => some (.imageBase64 (((part.strAt? "media_type").or
        (source.bind fun s => s.strAt? "media_type")).getD "image/png") data)
    | none => fileId.map fun id => .imageUrl "" detail none (some id)

def decodeTyped (source : SourceWire) (part : Value) : Option IrPart :=
  let ty := (part.strAt? "type").getD "text"
  match source with
  | .chatCompletions =>
    match ty with
    | "text" => (part.strAt? "text").map .text
    | "image_url" => chatImage part
    | "file" => decodeFile part
    | "input_audio" => decodeInputAudio part
    | "refusal" =>
      ((((part.get? "refusal").or (part.get? "text")).bind Value.asStr?).filter
        fun text => !text.isEmpty).map .text
    | "thinking" => some (decodeThinking part)
    | _ => (part.strAt? "text").map .text
  | .responses =>
    match ty with
    | "input_text" => (part.strAt? "text").map .text
    | "output_text" => (part.strAt? "text").map .text
    | "text" => (part.strAt? "text").map .text
    | "input_image" => responsesImage part
    | "image" => responsesImage part
    | "input_file" => decodeFile part
    | "file" => decodeFile part
    | "input_audio" => decodeInputAudio part
    | "thinking" => some (decodeThinking part)
    | _ => ((part.strAt? "text").map .text).or (some (.raw ty part))

def decodePart (source : SourceWire) (part : Value) : Option IrPart :=
  match part.asStr? with
  | some text => some (.text text)
  | none => withPromptCache (decodeTyped source part) part

def decodeContent (source : SourceWire) : Option Value → List IrPart
  | some (.string text) => [.text text]
  | some (.array parts) => parts.filterMap (decodePart source)
  | _ => []

def partsText (source : SourceWire) (parts : List IrPart) : String :=
  match source with
  | .chatCompletions => join (parts.filterMap fun part => textOrThinking (peelPromptCache part).1)
  | .responses => join (parts.filterMap textOf)

def roleTextBreakpoint : List IrPart → Option String
  | [part] => (peelPromptCache part).2
  | _ => none

def hasBreakpoint (part : IrPart) : Bool := (peelPromptCache part).2.isSome

/-- Parts to keep in order when a role has more than one and a breakpoint. -/
def roleContentParts (parts : List IrPart) : List IrPart :=
  if parts.length > 1 && parts.any hasBreakpoint then parts else []

/-- The items of the system slot; items of other roles go to the turns. -/
inductive IrItem where
  | system (r : RoleText)
  | developer (r : RoleText)

def IrItem.role : IrItem → RoleText
  | .system r => r
  | .developer r => r

def roleText (source : SourceWire) (parts : List IrPart) : RoleText where
  text := partsText source parts
  promptCacheBreakpoint := roleTextBreakpoint parts
  contentParts := roleContentParts parts

/-- A message of either wire, when its role is system or developer. -/
def decodeMessage (source : SourceWire) (message : Value) : Option IrItem :=
  let parts := decodeContent source (message.get? "content")
  match (message.strAt? "role").getD "user" with
  | "system" => some (.system (roleText source parts))
  | "developer" => some (.developer (roleText source parts))
  | _ => none

/-- Of the input items only messages have a role; one without a type is a message. -/
def isMessageItem (item : Value) : Bool :=
  item.asStr?.isNone && (((item.strAt? "type").getD "") = "message" ||
    ((item.strAt? "type").getD "") = "")

/-- `instructions` is a system item before the input. -/
def instructionItem (body : Value) : List IrItem :=
  (((body.strAt? "instructions").filter fun text => !text.isEmpty).map fun text =>
    IrItem.system ⟨text, none, []⟩).toList

def decode (source : SourceWire) (body : Value) : List IrItem :=
  match source with
  | .chatCompletions => (items (body.get? "messages")).filterMap (decodeMessage source)
  | .responses => instructionItem body ++
      ((items (body.get? "input")).filter isMessageItem).filterMap (decodeMessage source)

def sentText (r : RoleText) : String := (systemRoleText r).1

/-- Text of a message with role system or developer. `encode_parts` keeps text parts. -/
def roleContent (r : RoleText) : String :=
  if r.contentParts.isEmpty then r.text
  else join (r.contentParts.filterMap fun part => textOf (peeled part))

/-- A role with parts or a breakpoint stays an input message. -/
def inInput (r : RoleText) : Bool :=
  !r.contentParts.isEmpty || (r.promptCacheBreakpoint.filter fun mode => !mode.isEmpty).isSome

def instructions (roles : List RoleText) : List String :=
  (roles.filter fun r => !inInput r).map RoleText.text

def inputMessages (roles : List RoleText) : List String := (roles.filter inInput).map roleContent

def textBlock (text : String) : Value := .object [("type", "text"), ("text", text)]

def plainBlock (text : String) : Value := .object [("text", text)]

/-- `system` of a Messages body: one block is a string. -/
def messagesSystem (roles : List RoleText) : Option Value :=
  match roles.map sentText with
  | [] => none
  | [text] => some (.string text)
  | texts => some (.array (texts.map textBlock))

def roleTexts (roles : List RoleText) : List String :=
  (roles.map sentText).filter fun text => !text.isEmpty

def geminiSystemInstruction (roles : List RoleText) : Option Value :=
  if (roleTexts roles).isEmpty then none
  else some (.object [("parts", .array ((roleTexts roles).map plainBlock))])

def converseSystem (roles : List RoleText) : Option Value :=
  if (roleTexts roles).isEmpty then none else some (.array ((roleTexts roles).map plainBlock))

/-- The texts of a string or of blocks. -/
def readTexts : Option Value → List String
  | some (.string text) => [text]
  | some (.array blocks) => blocks.filterMap fun block => block.strAt? "text"
  | _ => []

/-- The texts of the system slot, in the order of the body. The Responses slot is
`instructions`, one text after the other, and the input messages of these roles. -/
def systemSlot (wire : Wire) (items : List IrItem) : List String :=
  let roles := items.map IrItem.role
  match wire with
  | .chatCompletions => roles.map roleContent
  | .messages => readTexts (messagesSystem roles)
  | .gemini => readTexts ((geminiSystemInstruction roles).bind fun value => value.get? "parts")
  | .converse => readTexts (converseSystem roles)
  | .responses => instructions roles ++ inputMessages roles

theorem systemPart_text (part : IrPart) :
    (systemPart part).1 = (textOrThinking (peeled part)).toList := by
  unfold systemPart
  split <;> rename_i h <;> rw [h] <;> rfl

theorem sentText_parts {r : RoleText} (h : r.contentParts ≠ []) :
    sentText r = join (r.contentParts.filterMap fun part => textOrThinking (peeled part)) := by
  unfold sentText systemRoleText
  rw [if_neg (by simpa using h)]
  simp only [systemPart_text]
  rw [List.filterMap_eq_flatMap_toList]

theorem sentText_plain {r : RoleText} (h : r.contentParts = []) : sentText r = r.text := by
  rw [sentText, systemRoleText, h]
  rfl

theorem readTexts_plain (texts : List String) :
    readTexts (some (.array (texts.map plainBlock))) = texts := by
  induction texts with
  | nil => rfl
  | cons text rest ih => exact congrArg (text :: ·) ih

theorem readTexts_blocks (texts : List String) :
    readTexts (some (.array (texts.map textBlock))) = texts := by
  induction texts with
  | nil => rfl
  | cons text rest ih => exact congrArg (text :: ·) ih

theorem readTexts_messages (roles : List RoleText) :
    readTexts (messagesSystem roles) = roles.map sentText := by
  unfold messagesSystem
  split
  · rename_i h
    rw [h]
    rfl
  · rename_i h
    rw [h]
    rfl
  · exact readTexts_blocks _

theorem readTexts_gemini (roles : List RoleText) :
    readTexts ((geminiSystemInstruction roles).bind fun value => value.get? "parts") =
      roleTexts roles := by
  unfold geminiSystemInstruction
  split
  · rename_i h
    rw [List.isEmpty_iff.mp h]
    rfl
  · exact readTexts_plain _

theorem readTexts_converse (roles : List RoleText) :
    readTexts (converseSystem roles) = roleTexts roles := by
  unfold converseSystem
  split
  · rename_i h
    rw [List.isEmpty_iff.mp h]
    rfl
  · exact readTexts_plain _

/-- The parts of the system and developer messages of a body. -/
def roleParts (source : SourceWire) (message : Value) : Option (List IrPart) :=
  match (message.strAt? "role").getD "user" with
  | "system" => some (decodeContent source (message.get? "content"))
  | "developer" => some (decodeContent source (message.get? "content"))
  | _ => none

def roleMessages (source : SourceWire) (body : Value) : List (List IrPart) :=
  match source with
  | .chatCompletions => (items (body.get? "messages")).filterMap (roleParts source)
  | .responses =>
    (((body.strAt? "instructions").filter fun text => !text.isEmpty).map fun text =>
      [IrPart.text text]).toList ++
      ((items (body.get? "input")).filter isMessageItem).filterMap (roleParts source)

/-- Each text stands in the string once, in order; a thinking part may stand there too. -/
inductive Spells : List IrPart → String → Prop where
  | nil : Spells [] ""
  | text {part : IrPart} {rest : List IrPart} {t s : String} (h : peeled part = .text t)
      (tail : Spells rest s) : Spells (part :: rest) (t ++ s)
  | thinking {part : IrPart} {rest : List IrPart} {t s : String} {signature : Option String}
      (h : peeled part = .thinking t signature)
      (tail : Spells rest s) : Spells (part :: rest) (t ++ s)
  | aside {part : IrPart} {rest : List IrPart} {s : String} (h : textOf (peeled part) = none)
      (tail : Spells rest s) : Spells (part :: rest) s

def shownTexts (texts : List String) : List String := texts.filter fun text => !text.isEmpty

/-- Each message has its entry in the slot, in order; an entry without text may be left out. -/
def Kept (messages : List (List IrPart)) (slot : List String) : Prop :=
  ∃ entries, List.Forall₂ Spells messages entries ∧ shownTexts entries = shownTexts slot

/-- One text with a breakpoint: the Responses decoder reads no text from it. -/
def Lost (source : SourceWire) (parts : List IrPart) : Prop :=
  match source with
  | .chatCompletions => False
  | .responses => ∃ mode t, parts = [.promptCacheBreakpoint mode (.text t)] ∧ t ≠ ""

def marked (parts : List IrPart) : Bool := parts.any hasBreakpoint

def unmarkedFirst (messages : List (List IrPart)) : List (List IrPart) :=
  messages.filter (fun parts => !marked parts) ++ messages.filter marked

def spoken (parts : List IrPart) : String := join (parts.filterMap fun part => textOf (peeled part))

def NoThinking (messages : List (List IrPart)) : Prop :=
  ∀ parts ∈ messages, ∀ part ∈ parts, ∀ t signature, peeled part ≠ .thinking t signature

def InOrder (messages : List (List IrPart)) : Prop :=
  unmarkedFirst messages = messages ∨ (NoThinking messages ∧
    shownTexts ((unmarkedFirst messages).map spoken) = shownTexts (messages.map spoken))

/-- The condition under which the text of the messages arrives. -/
structure Arrives (wire : Wire) (source : SourceWire) (messages : List (List IrPart)) : Prop where
  read : ∀ parts ∈ messages, ¬ Lost source parts
  order : wire = .responses → InOrder messages

end Wiremux.SystemText
