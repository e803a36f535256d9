import Wiremux.ConverseParts
import Wiremux.MessagesItems
import Wiremux.TurnLists

set_option autoImplicit false

/-!
# The turns of a Converse request

`encode_items` extends the last message while the role stays the same. Images and
documents of an assistant move to a user message.
-/
namespace Wiremux.ConverseItems
open JsonValue Losses RequestParts ConverseParts TurnLists
open MessagesItems (IrItem itemPath)

inductive Role where
  | user
  | assistant
  | system
deriving DecidableEq

def Role.name : Role → String
  | .user => "user"
  | .assistant => "assistant"
  | .system => "system"

abbrev Message := Turn Role Value

def messageJson (message : Message) : Value :=
  .object [("role", message.role.name), ("content", .array message.content)]

structure Encoding where
  system : List Value
  messages : List Message
  report : LossReport

namespace Encoding

def note (s : Encoding) (events : LossReport) : Encoding := { s with report := s.report ++ events }

def join (s : Encoding) (role : Role) (finish : List Value → List Value) (blocks : List Value) :
    Encoding := { s with messages := joinOrPush role finish blocks s.messages }

end Encoding

def has (key : String) (block : Value) : Bool := (block.get? key).isSome

def needsDocumentText (blocks : List Value) : Bool := blocks.any (has "document") && !blocks.any (has "text")

def ensureDocumentText (blocks : List Value) : List Value :=
  if needsDocumentText blocks then blocks ++ [textBlock "See the attached document."] else blocks

/-- The content of the message that `blocks` are joined to, when there is one. -/
def lastContent (role : Role) (messages : List Message) : Option (List Value) :=
  (messages.getLast?.filter fun last => last.role = role).map Turn.content

def lastUserHasToolResult (messages : List Message) : Bool :=
  (lastContent .user messages).any fun content => content.any (has "toolResult")

/-- What joining user blocks loses: they are joined, or a text is added. -/
def joinEvents (idx : ℕ) (blocks : List Value) (messages : List Message) : LossReport :=
  (if (lastContent .user messages).isSome && !lastUserHasToolResult messages then
    [⟨itemPath idx, .degrade, "consecutive turns with the same role were joined"⟩] else []) ++
  if needsDocumentText ((lastContent .user messages).getD [] ++ blocks) then
    [⟨"part.document", .degrade, "document needs a text prompt"⟩] else []

def joinUser (idx : ℕ) (blocks : List Value) (s : Encoding) : Encoding :=
  if blocks.isEmpty then s
  else (s.note (joinEvents idx blocks s.messages)).join .user ensureDocumentText blocks

def joinAssistant (blocks : List Value) (s : Encoding) : Encoding :=
  if blocks.isEmpty then s else s.join .assistant id blocks

def encodeParts (parts : List IrPart) : List Value × LossReport :=
  (parts.filterMap fun part => (encodePart part).1, parts.flatMap fun part => (encodePart part).2)

def isMediaBlock (block : Value) : Bool := has "document" block || has "image" block

def encodeUser (idx : ℕ) (parts : List IrPart) (s : Encoding) : Encoding :=
  joinUser idx (encodeParts parts).1 (s.note (encodeParts parts).2)

/-- `drop_assistant_phase`. -/
def encodeAssistant (idx : ℕ) (parts : List IrPart) (phase : Option String) (s : Encoding) : Encoding :=
  let encoded := encodeParts parts
  let media := encoded.1.filter isMediaBlock
  let moved := if media.isEmpty then []
    else [⟨itemPath idx, .degrade, "document and image blocks moved to a user turn"⟩]
  let s := s.note (MessagesItems.dropPhase idx phase ++ encoded.2 ++ moved)
  joinUser idx media (joinAssistant (encoded.1.filter fun block => !isMediaBlock block) s)

variable (sj : SerdeJson)

def encodeCall (callId name arguments : String) (s : Encoding) : Encoding :=
  let input := ToolArguments.converseToolInput sj arguments s.report
  joinAssistant [block "toolUse" (.object [("toolUseId", callId), ("name", name), ("input", input.1)])]
    { s with report := input.2 }

def encodeOutput (idx : ℕ) (callId output : String) (parts : List IrPart) (isError : Bool)
    (s : Encoding) : Encoding :=
  let content := resultContent idx output parts
  (s.note content.2).join .user id [toolResult callId isError content.1]

def encodeRole (idx : ℕ) (r : RoleText) (s : Encoding) : Encoding :=
  let text := systemRoleText r
  let s := s.note (MessagesItems.noteRole r ++ text.2)
  if text.1.isEmpty then s
  else { s.note (if s.messages.isEmpty then []
      else [⟨itemPath idx, .degrade, "system message moved out of the turn list"⟩]) with
    system := s.system ++ [textBlock text.1] }

def encodeSystemBlock (idx : ℕ) (key : String) (raw : Value) (s : Encoding) : Encoding :=
  { s.note (if s.messages.isEmpty then []
      else [⟨itemPath idx, .degrade, "system message moved out of the turn list"⟩]) with
    system := s.system ++ [block key raw] }

def noSlot (kind : String) : LossReport := [dropped "messages" ("converse has no slot for " ++ kind)]

def encodeItem (idx : ℕ) (item : IrItem) (s : Encoding) : Encoding :=
  match item with
  | .system r | .developer r => encodeRole idx r s
  | .systemCache raw => encodeSystemBlock idx "cachePoint" raw s
  | .systemGuard raw => encodeSystemBlock idx "guardContent" raw s
  | .user parts => encodeUser idx parts s
  | .assistant parts phase => encodeAssistant idx parts phase s
  | .functionCall callId name arguments _ => encodeCall sj callId name arguments s
  | .customToolCall callId name input => encodeCall sj callId name input s
  | .functionOutput callId output parts isError => encodeOutput idx callId output parts isError s
  | .reasoning _ summary _ =>
    match summary with
    | some text => joinAssistant [reasoningText text none] s
    | none => s
  | .hostedToolCall kind _ => s.note (noSlot kind)
  | .unknown typeName raw =>
    if (typeName = "toolAddition" ∨ typeName = "toolRemoval") ∧ raw.isObject = true then
      { s with messages := s.messages ++ [⟨.system, [raw]⟩] }
    else s.note (noSlot typeName)

def encodeFrom : ℕ → List IrItem → Encoding → Encoding
  | _, [], s => s
  | idx, item :: rest, s => encodeFrom (idx + 1) rest (encodeItem sj idx item s)

def encodeTurns (items : List IrItem) : Encoding := encodeFrom sj 0 items ⟨[], [], []⟩

def encodeItems (items : List IrItem) : Option Value × Value × LossReport :=
  let s := encodeTurns sj items
  (if s.system.isEmpty then none else some (.array s.system),
    .array (s.messages.map messageJson), s.report)

variable {sj}

theorem encodeFrom_keeps {Inv : List Message → Prop}
    (round : ∀ idx item s, Inv s.messages → Inv (encodeItem sj idx item s).messages)
    (items : List IrItem) (idx : ℕ) (s : Encoding) (h : Inv s.messages) :
    Inv (encodeFrom sj idx items s).messages := by
  induction items generalizing idx s with
  | nil => exact h
  | cons item rest ih => exact ih (idx + 1) _ (round idx item s h)

end Wiremux.ConverseItems
