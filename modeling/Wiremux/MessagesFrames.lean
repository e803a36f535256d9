import Wiremux.CallEvents
import Wiremux.MessagesEncoder
import Wiremux.SerialBlocks

set_option autoImplicit false

/-!
# Reading Messages frames

What a client takes from a frame: its place in the block grammar, the call a
block starts, and the text or argument fragment of a delta.
-/
namespace Wiremux.MessagesFrames
open JsonValue StreamEvents StreamEventFrames MessagesEncoder SerialBlocks CallEvents

def blockIndex (frame : RawSse) : ℕ := ((frame.get? "index").bind Value.asU64?).getD 0

/-- Place of a frame in the block grammar; the `message_delta` and the
`message_stop` are the two closing marks. -/
def blockMark (frame : RawSse) : Mark ℕ :=
  match frame.event with
  | some "message_start" => .head
  | some "content_block_start" => .start (blockIndex frame)
  | some "content_block_delta" => .delta (blockIndex frame)
  | some "content_block_stop" => .stop (blockIndex frame)
  | some "message_delta" => .tail 0
  | some "message_stop" => .tail 1
  | _ => .silent

/-- A `tool_use` block: its index, id and name. -/
structure ToolUse where
  index : ℕ
  id : String
  name : String
deriving DecidableEq

def toolUseOf? (frame : RawSse) : Option ToolUse :=
  if frame.event = some "content_block_start" then
    (frame.get? "content_block").bind fun block =>
      if block.strAt? "type" = some "tool_use" then
        some ⟨blockIndex frame, (block.strAt? "id").getD "", (block.strAt? "name").getD ""⟩
      else none
  else none

def deltaStr? (frame : RawSse) (key : String) : Option String :=
  if frame.event = some "content_block_delta" then
    (frame.get? "delta").bind fun delta => delta.strAt? key
  else none

def argOf? (frame : RawSse) : Option (ℕ × String) :=
  (deltaStr? frame "partial_json").map fun text => (blockIndex frame, text)

def toolUses (frames : List RawSse) : List ToolUse := frames.filterMap toolUseOf?

def argDeltas (frames : List RawSse) : List (ℕ × String) := frames.filterMap argOf?

def argsAt (frames : List RawSse) (index : ℕ) : String :=
  joined (((argDeltas frames).filter (fun p => p.1 = index)).map Prod.snd)

@[simp] theorem toolUses_nil : toolUses [] = [] := rfl

@[simp] theorem toolUses_append (fs gs : List RawSse) :
    toolUses (fs ++ gs) = toolUses fs ++ toolUses gs := List.filterMap_append

@[simp] theorem argDeltas_append (fs gs : List RawSse) :
    argDeltas (fs ++ gs) = argDeltas fs ++ argDeltas gs := List.filterMap_append

@[simp] theorem argsAt_nil (index : ℕ) : argsAt [] index = "" := rfl

@[simp] theorem argsAt_append (fs gs : List RawSse) (index : ℕ) :
    argsAt (fs ++ gs) index = argsAt fs index ++ argsAt gs index := by
  simp [argsAt]

@[simp] theorem blockMark_messagesStartFrame (s : EncoderState.StreamEncoder) :
    blockMark (messagesStartFrame s) = .head := rfl

@[simp] theorem blockMark_contentBlockStart (index : ℕ) (block : Value) :
    blockMark (contentBlockStart index block) = .start index := rfl

@[simp] theorem blockMark_contentBlockDelta (index : ℕ) (delta : Value) :
    blockMark (contentBlockDelta index delta) = .delta index := rfl

@[simp] theorem blockMark_contentBlockStop (index : ℕ) :
    blockMark (contentBlockStop index) = .stop index := rfl

@[simp] theorem blockMark_toolStartFrame (enc : ℕ) (id name : String) :
    blockMark (toolStartFrame enc id name) = .start enc := rfl

@[simp] theorem blockMark_toolArgFrame (enc : ℕ) (delta : String) :
    blockMark (toolArgFrame enc delta) = .delta enc := rfl

@[simp] theorem blockMark_messagesDeltaFrame (s : EncoderState.StreamEncoder) :
    blockMark (messagesDeltaFrame s) = .tail 0 := rfl

@[simp] theorem blockMark_messageStop : blockMark messageStop = .tail 1 := rfl

end Wiremux.MessagesFrames
