import Wiremux.MessagesParts
import Wiremux.ToolUseIds

set_option autoImplicit false

/-!
# The turns of a Messages request

`encode_items` writes user, assistant, call, result and reasoning items as
messages; system and developer items leave the list of turns. A user turn takes
the results behind it, an assistant turn the calls and the reasoning.
-/
namespace Wiremux.MessagesItems
open JsonValue Losses RequestParts MessagesParts ToolUseIds

inductive IrItem where
  | system (r : RoleText)
  | systemCache (raw : Value)
  | systemGuard (raw : Value)
  | developer (r : RoleText)
  | user (parts : List IrPart)
  | assistant (parts : List IrPart) (phase : Option String)
  | functionCall (callId name arguments : String) (thoughtSignature : Option String)
  | customToolCall (callId name input : String)
  | functionOutput (callId output : String) (parts : List IrPart) (isError : Bool)
  | reasoning (encrypted summary : Option String) (raw : Option Value)
  | hostedToolCall (kind : String) (raw : Value)
  | unknown (typeName : String) (raw : Value)

inductive Role where
  | user
  | assistant
deriving DecidableEq

/-- A block of a turn; a tool block keeps its id apart from its JSON. -/
inductive Block where
  | part (value : Value)
  | toolUse (id name : String) (input : Value)
  | toolResult (id : String) (isError : Bool) (content : Value)

/-- A turn, or the message of a hosted or unknown item with what was joined to it. -/
inductive Message where
  | turn (role : Role) (content : List Block)
  | raw (value : Value) (joined : List Block)

def Role.name : Role → String
  | .user => "user"
  | .assistant => "assistant"

def Block.toJson : Block → Value
  | .part value => value
  | .toolUse id name input =>
    .object [("type", "tool_use"), ("id", id), ("name", name), ("input", input)]
  | .toolResult id isError content =>
    ((Value.object [("type", "tool_result"), ("tool_use_id", id)]).insertSome "is_error"
      (if isError then some (.bool true) else none)).insert "content" content

def blocksJson (content : List Block) : List Value := content.map Block.toJson

def Message.toJson : Message → Value
  | .turn role content => .object [("role", role.name), ("content", .array (blocksJson content))]
  | .raw value joined =>
    match (value.get? "content").bind Value.asArray? with
    | some own => value.insert "content" (.array (own ++ blocksJson joined))
    | none => value

structure Encoding where
  toolIds : ToolIds
  system : List Value
  messages : List Message
  report : LossReport

def itemPath (idx : ℕ) : String := s!"items[{idx}]"

namespace Encoding

def note (s : Encoding) (events : LossReport) : Encoding := { s with report := s.report ++ events }

def push (s : Encoding) (message : Message) : Encoding :=
  { s with messages := s.messages ++ [message] }

def pushSystem (s : Encoding) (block : Value) : Encoding := { s with system := s.system ++ [block] }

/-- `rewrite_messages_tool_use_id`. -/
def rewriteId (s : Encoding) (callId : String) (idx : ℕ) : String × Encoding :=
  let assigned := assignMessagesToolUseId callId s.toolIds
  (assigned.1, ({ s with toolIds := assigned.2 }).note
    (if assigned.1 = callId then []
      else [⟨itemPath idx, .degrade, "sanitized to Anthropic tool_use.id charset"⟩]))

end Encoding

variable (sj : SerdeJson)

def toolUseBlock (idx : ℕ) (callId name arguments : String) (s : Encoding) : Block × Encoding :=
  let (id, s) := s.rewriteId callId idx
  let (input, report) := ToolArguments.callInput sj .messages (itemPath idx) arguments s.report
  (.toolUse id name input, { s with report := report })

def toolResultBlock (idx : ℕ) (callId output : String) (parts : List IrPart) (isError : Bool)
    (s : Encoding) : Block × Encoding :=
  let (id, s) := s.rewriteId callId idx
  let content := resultContent sj output parts
  (.toolResult id isError content.1, s.note content.2)

def noteSignature (idx : ℕ) (signature : Option String) : LossReport :=
  if signature.isSome then [dropped (itemPath idx) "thoughtSignature has no Messages slot"] else []

def noteReasoning (idx : ℕ) (block : Option Value) : LossReport :=
  if block.isSome then [⟨itemPath idx, .preserve, "reasoning as thinking"⟩]
  else [⟨itemPath idx, .degrade, "reasoning omitted (no thinking)"⟩]

def dot : Block := .part (textBlock ".")

def emptied (idx : ℕ) : LossReport := [⟨itemPath idx, .degrade, "empty content became '.'"⟩]

def encodeUserParts (idx : ℕ) (parts : List IrPart) : List Block × LossReport :=
  let encoded := encodeParts parts
  if encoded.1.isEmpty then ([dot], encoded.2 ++ emptied idx) else (encoded.1.map .part, encoded.2)

def followingResults : ℕ → List IrItem → Encoding → List Block × Encoding
  | idx, .functionOutput callId output parts isError :: rest, s =>
    let block := toolResultBlock sj idx callId output parts isError s
    let more := followingResults (idx + 1) rest block.2
    (block.1 :: more.1, more.2)
  | _, _, s => ([], s)

/-- The calls and the reasoning directly behind an assistant item, from item `idx`. -/
def followingCalls : ℕ → List IrItem → Encoding → List Block × Encoding
  | idx, .functionCall callId name arguments signature :: rest, s =>
    let block := toolUseBlock sj idx callId name arguments (s.note (noteSignature idx signature))
    let more := followingCalls (idx + 1) rest block.2
    (block.1 :: more.1, more.2)
  | idx, .customToolCall callId name input :: rest, s =>
    let block := toolUseBlock sj idx callId name input s
    let more := followingCalls (idx + 1) rest block.2
    (block.1 :: more.1, more.2)
  | idx, .reasoning encrypted summary raw :: rest, s =>
    let block := reasoningBlock encrypted summary raw
    let more := followingCalls (idx + 1) rest (s.note (noteReasoning idx block))
    (block.toList.map .part ++ more.1, more.2)
  | _, _, s => ([], s)

def IrItem.isOutput : IrItem → Bool
  | .functionOutput _ _ _ _ => true
  | _ => false

def IrItem.isCall : IrItem → Bool
  | .functionCall _ _ _ _ | .customToolCall _ _ _ => true
  | _ => false

def IrItem.isReasoning : IrItem → Bool
  | .reasoning _ _ _ => true
  | _ => false

def IrItem.isFollowUp (item : IrItem) : Bool := item.isCall || item.isReasoning

def joinedEvents (idx : ℕ) : LossReport :=
  [⟨itemPath idx, .degrade, "consecutive turns with the same role were joined"⟩]

def joinable : Message → Bool
  | .turn role _ => role == .user
  | .raw value _ =>
    value.strAt? "role" == some "user" && ((value.get? "content").bind Value.asArray?).isSome

def joinTo (content : List Block) : Message → Message
  | .turn role own => .turn role (own ++ content)
  | .raw value joined => .raw value (joined ++ content)

def pushAlternatingUser (idx : ℕ) (content : List Block) (s : Encoding) : Encoding :=
  match s.messages.getLast? with
  | some last =>
    if joinable last then
      ({ s with messages := s.messages.dropLast ++ [joinTo content last] }).note (joinedEvents idx)
    else s.push (.turn .user content)
  | none => s.push (.turn .user content)

def encodeUser (idx : ℕ) (parts : List IrPart) (rest : List IrItem) (s : Encoding) : Encoding :=
  let own := encodeUserParts idx parts
  let results := followingResults sj (idx + 1) rest (s.note own.2)
  pushAlternatingUser idx (own.1 ++ results.1) results.2

/-- `drop_assistant_phase`. -/
def dropPhase (idx : ℕ) (phase : Option String) : LossReport :=
  if phase.any fun t => !isBlank t then [dropped (itemPath idx ++ ".phase") "phase has no slot"] else []

def encodeAssistant (idx : ℕ) (parts : List IrPart) (rest : List IrItem) (s : Encoding) : Encoding :=
  let own := encodeParts parts
  let calls := followingCalls sj (idx + 1) rest (s.note own.2)
  let content := own.1.map .part ++ calls.1
  if content.isEmpty then (calls.2.note (emptied idx)).push (.turn .assistant [dot])
  else calls.2.push (.turn .assistant content)

def encodeReasoning (idx : ℕ) (block : Option Value) (s : Encoding) : Encoding :=
  match block with
  | some value => (s.push (.turn .assistant [.part value])).note (noteReasoning idx block)
  | none => s.note (noteReasoning idx block)

def noteRole (r : RoleText) : LossReport :=
  noteRoleBreakpoint r.promptCacheBreakpoint ++
    if r.contentParts.isEmpty then [] else noteRoleBreakpoint (some "explicit")

def encodeRole (r : RoleText) (events : LossReport) (s : Encoding) : Encoding :=
  let text := systemRoleText r
  (s.note (noteRole r ++ events ++ text.2)).pushSystem (textBlock text.1)

/-- One round of the loop: the items consumed, and what is written. -/
def encodeItem (idx : ℕ) (item : IrItem) (rest : List IrItem) (s : Encoding) : ℕ × Encoding :=
  match item with
  | .system r =>
    (1, encodeRole r (if s.messages.isEmpty then []
      else [⟨itemPath idx, .degrade, "system message moved out of the turn list"⟩]) s)
  | .systemCache _ => (1, s.note [dropped (itemPath idx) "system cache point has no slot"])
  | .systemGuard _ => (1, s.note [dropped (itemPath idx) "system guard content has no slot"])
  | .developer r => (1, encodeRole r [⟨itemPath idx, .degrade, "developer to system"⟩] s)
  | .user parts => (1 + (rest.takeWhile IrItem.isOutput).length, encodeUser sj idx parts rest s)
  | .assistant parts phase =>
    (1 + (rest.takeWhile IrItem.isFollowUp).length,
      encodeAssistant sj idx parts rest (s.note (dropPhase idx phase)))
  | .functionCall callId name arguments signature =>
    let block := toolUseBlock sj idx callId name arguments (s.note (noteSignature idx signature))
    (1, block.2.push (.turn .assistant [block.1]))
  | .customToolCall callId name input =>
    let block := toolUseBlock sj idx callId name input s
    (1, block.2.push (.turn .assistant [block.1]))
  | .functionOutput callId output parts isError =>
    let block := toolResultBlock sj idx callId output parts isError s
    (1, block.2.push (.turn .user [block.1]))
  | .reasoning encrypted summary raw =>
    (1, encodeReasoning idx (reasoningBlock encrypted summary raw) s)
  | .hostedToolCall kind raw =>
    (1, (s.note [⟨itemPath idx, .preserve, "hosted item `" ++ kind ++ "` passthrough"⟩]).push
      (.raw raw []))
  | .unknown typeName raw =>
    if typeName = "toolAddition" ∨ typeName = "toolRemoval" then
      (1, s.note [dropped (itemPath idx) "tool addition or removal has no slot"])
    else (1, s.push (.raw raw []))

def encodeFrom : ℕ → ℕ → List IrItem → Encoding → Encoding
  | _, _, [], s => s
  | idx, skip + 1, _ :: rest, s => encodeFrom (idx + 1) skip rest s
  | idx, 0, item :: rest, s =>
    let round := encodeItem sj idx item rest s
    encodeFrom (idx + 1) (round.1 - 1) rest round.2

def messagesNeedContinue (items : List IrItem) : Bool :=
  match items.getLast? with
  | some (.assistant _ _) => true
  | some item => item.isCall
  | none => false

def continueTurn : Message := .turn .user [.part (textBlock "Continue.")]

def start : Encoding := ⟨[], [], [], []⟩

def encodeTurns (items : List IrItem) : Encoding :=
  let s := encodeFrom sj 0 0 items start
  if messagesNeedContinue items then s.push continueTurn else s

/-- One block that is not marked is sent as its text. -/
def systemOf (blocks : List Value) : Option Value :=
  match blocks with
  | [] => none
  | [block] =>
    if (block.get? "cache_control").isNone then (block.get? "text").or (some (.array blocks))
    else some (.array blocks)
  | _ => some (.array blocks)

def encodeItems (items : List IrItem) : Option Value × Value × LossReport :=
  let s := encodeTurns sj items
  (systemOf s.system, .array (s.messages.map Message.toJson), s.report)

variable {sj}

/-- The items behind `item` that its message takes. -/
def taken (item : IrItem) (rest : List IrItem) : List IrItem :=
  match item with
  | .user _ => rest.takeWhile IrItem.isOutput
  | .assistant _ _ => rest.takeWhile IrItem.isFollowUp
  | _ => []

theorem taken_prefix (item : IrItem) (rest : List IrItem) : taken item rest <+: rest := by
  cases item <;> first | exact List.takeWhile_prefix _ | exact List.nil_prefix

theorem encodeItem_consumed (idx : ℕ) (item : IrItem) (rest : List IrItem) (s : Encoding) :
    (encodeItem sj idx item rest s).1 = 1 + (taken item rest).length := by
  cases item with
  | unknown typeName raw =>
    change (if typeName = "toolAddition" ∨ typeName = "toolRemoval" then _ else _ : ℕ × Encoding).1 = 1
    split <;> rfl
  | _ => rfl

theorem encodeFrom_skip (idx skip : ℕ) (items : List IrItem) (s : Encoding) :
    encodeFrom sj idx skip items s = encodeFrom sj (idx + skip) 0 (items.drop skip) s := by
  induction items generalizing idx skip with
  | nil => simp [encodeFrom]
  | cons item rest ih =>
    cases skip with
    | zero => rfl
    | succ skip =>
      rw [encodeFrom, ih, List.drop_succ_cons]
      congr 1
      omega

theorem encodeFrom_keeps (Inv : List IrItem → List IrItem → Encoding → Prop)
    (round : ∀ pre idx item rest left s, rest = taken item rest ++ left →
      Inv pre (item :: rest) s →
      Inv (pre ++ item :: taken item rest) left (encodeItem sj idx item rest s).2)
    (pre : List IrItem) (idx : ℕ) (items : List IrItem) (s : Encoding) (h : Inv pre items s) :
    Inv (pre ++ items) [] (encodeFrom sj idx 0 items s) := by
  induction hlength : items.length using Nat.strong_induction_on generalizing pre idx items s with
  | _ length ih =>
    cases items with
    | nil => simpa [encodeFrom] using h
    | cons item rest =>
      obtain ⟨left, hleft⟩ := taken_prefix item rest
      have hround := round pre idx item rest left s hleft.symm h
      have hdrop : rest.drop (taken item rest).length = left := by
        rw [show rest.drop (taken item rest).length = (taken item rest ++ left).drop _ from by rw [hleft]]
        exact List.drop_left
      have hshort : left.length < length := by
        have := congrArg List.length hleft
        simp only [List.length_append, List.length_cons] at this hlength
        omega
      rw [encodeFrom, encodeItem_consumed, Nat.add_sub_cancel_left, encodeFrom_skip, hdrop]
      have hrest := ih left.length hshort (pre ++ item :: taken item rest)
        (idx + 1 + (taken item rest).length) left _ hround rfl
      rwa [List.append_assoc, List.cons_append, hleft] at hrest

end Wiremux.MessagesItems
